import Sisyphus.Process.Registry

/-!
# The scheduler is not wedged

Whatever executes gets on by one of three calls, `resume_current`, `schedule_yield` and
`schedule_exit`, and all three insist that the process named by the published identity is
running.  If the identity names a process that is not, none of them is enabled; and neither are
`mark_running` and `schedule_from_pid0`, which want the idle context to be published.

The scheduling functions change phases and publish the identity together.  `mark_runnable` and
`mark_blocked` do not publish, so they wedge the scheduler when they are applied to the process
that executes (`markBlocked_wedges`).  They are the only calls that can:
`everyStep_sparesCurrent_iff` says that a run is never wedged if and only if none of its calls
does that.
-/

set_option autoImplicit false

namespace Sisyphus.Lifecycle

open Fallible Function ProcessSlot ProcessTable

/-- The published identity, unless it is the idle context's, names a running slot. -/
def NamesRunning (s : State) : Prop :=
  s.currentExecution ≠ pid0Identity →
    ∃ k, (s.table.slots k).isRunning = true ∧ (s.table.slots k).handle.encode = s.currentExecution

/-- All three ways to get on are open to the process that executes. -/
structure Enabled (s : State) : Prop where
  resume : ∀ saved, saved.validate = .ok () → ∃ p t, resumeCurrent saved s = .ok p t
  yield : ∀ saved, saved.validate = .ok () → ∃ p t, scheduleYield saved s = .ok p t
  exit : ∀ exitCode, ∃ d t, scheduleExit exitCode s = .ok d t

/-- The call does not take the process that executes out of its running phase. -/
def SparesCurrent (s : State) : Call → Prop
  | .markRunnable handle =>
    s.currentExecution = pid0Identity ∨ s.currentExecution ≠ handle.encode
  | .markBlocked handle =>
    s.currentExecution = pid0Identity ∨ s.currentExecution ≠ handle.encode
  | _ => True

/-! ## Enabledness -/

variable {k i : SlotIndex}

section Enabled

variable {s : State}

theorem bind_propagate_of_eq {α β : Type} {r : Except LifecycleError α} {a : α} {f : α → Op β}
    (h : r = .ok a) : (propagate r >>= f) s = f a s := by
  subst h
  rfl

theorem nextSchedulerEpoch_eq_ok {epoch : UInt64} (h : epoch.toNat + 1 < 2 ^ 64) :
    nextSchedulerEpoch epoch = .ok (epoch + 1) := by
  rw [nextSchedulerEpoch, if_pos h]

section

variable (wf : WellFormed s.table)
include wf

/-- The published identity of a running process is read back as its handle. -/
theorem currentUserHandle_eq_ok (hk : (s.table.slots k).isRunning = true)
    (hcur : (s.table.slots k).handle.encode = s.currentExecution) :
    currentUserHandle s = .ok (s.table.slots k).handle := by
  have hocc := (isRunning_iff.mp hk).1
  have hpid := (wf.slot k).pid hocc
  have hne : s.currentExecution ≠ pid0Identity :=
    hcur ▸ ProcessHandle.encode_ne_pid0Identity hpid
  have hdecode : ProcessHandle.decode s.currentExecution = some (s.table.slots k).handle :=
    hcur ▸ ProcessHandle.decode_encode hpid (wf.slot k).generation
  simp [currentUserHandle, hne, hdecode]

/-- A slot that is dispatched passes the check made on it. -/
theorem scheduled_valid {j : SlotIndex} (epoch : UInt64) (hj : (s.table.slots j).occupied = true) :
    (s.table.scheduled j (s.table.slots j).context epoch).context.validate = .ok () :=
  scheduled_validate epoch ((wf.slot j).launch hj) ((wf.slot j).context hj)

/-- What `switch_from` would dispatch is valid. -/
theorem switch_target_valid (hi : (s.table.slots i).occupied = true) {saved : SavedUserContext}
    (hv : saved.validate = .ok ()) (epoch : UInt64) :
    (s.table.scheduled ((s.table.nextRunnableIndex i).getD i)
      (if (s.table.nextRunnableIndex i).getD i = i then saved
        else (s.table.slots ((s.table.nextRunnableIndex i).getD i)).context)
      epoch).context.validate = .ok () := by
  cases hj : s.table.nextRunnableIndex i with
  | none =>
    simp only [Option.getD_none, if_true]
    exact scheduled_validate epoch ((wf.slot i).launch hi) hv
  | some j =>
    have hrunnable := nextRunnableIndex_some hj
    have hocc := (isRunnable_iff.mp hrunnable).1
    split
    · exact scheduled_validate epoch ((wf.slot j).launch hocc) hv
    · exact scheduled_valid wf epoch hocc

theorem exists_switchFrom (hi : (s.table.slots i).isRunning = true)
    (hepoch : s.table.schedulerEpoch.toNat + 1 < 2 ^ 64) {saved : SavedUserContext}
    (hv : saved.validate = .ok ()) :
    ∃ p t, switchFrom saved i s = .ok p t := by
  simp only [switchFrom, bind_get, bind_propagate_of_eq (nextSchedulerEpoch_eq_ok hepoch),
    bind_validContext_eq_ok]
  exact ⟨_, _, switch_target_valid wf (isRunning_iff.mp hi).1 hv _, rfl⟩

theorem enabled_of_namesRunning (hk : (s.table.slots k).isRunning = true)
    (hcur : (s.table.slots k).handle.encode = s.currentExecution)
    (hepoch : s.table.schedulerEpoch.toNat + 1 < 2 ^ 64) : Enabled s := by
  obtain ⟨hocc, hphase⟩ := isRunning_iff.mp hk
  have hhandle := currentUserHandle_eq_ok wf hk hcur
  have hindex := indexByHandle_of_occupied wf hocc
  have hnext := nextSchedulerEpoch_eq_ok hepoch
  refine ⟨fun saved hv => ?_, fun saved hv => ?_, fun exitCode => ?_⟩
  · have hvalid := scheduled_validate (s.table.schedulerEpoch + 1)
      ((wf.slot k).launch hocc) hv
    simp only [resumeCurrent, resumeLocked, bind_validContext_eq_ok, bind_get,
      bind_propagate_of_eq hhandle, bind_runningIndex_eq_ok, bind_propagate_of_eq hnext]
    exact ⟨_, _, hv, k, hindex, hphase, hvalid, rfl⟩
  · have hv' := (SavedUserContext.validate_setSyscallResult saved 0).trans hv
    obtain ⟨p, t, hswitch⟩ := exists_switchFrom wf hk hepoch hv'
    simp only [scheduleYield, yieldLocked, bind_validContext_eq_ok, bind_get,
      bind_propagate_of_eq hhandle, bind_runningIndex_eq_ok]
    exact ⟨p, t, hv, k, hindex, hphase, hswitch⟩
  · have hvalid : ∀ j ∈ s.table.nextRunnableIndex k, (s.table.scheduled j
        (s.table.slots j).context (s.table.schedulerEpoch + 1)).context.validate = .ok () :=
      fun j hj => scheduled_valid wf _
        (isRunnable_iff.mp (nextRunnableIndex_some hj)).1
    simp only [scheduleExit, exitLocked, bind_get, bind_propagate_of_eq hhandle,
      bind_runningIndex_eq_ok, bind_propagate_of_eq hnext, bind_checkTarget_eq_ok, modifyTable,
      bind_modify, dispatch_apply]
    cases htarget : s.table.nextRunnableIndex k with
    | none | some j => exact ⟨_, _, k, hindex, hphase, hvalid, by rw [htarget]⟩

end

end Enabled

/-! ## The invariant -/

section Invariant

variable {s t : State} {o : Outcome}

theorem NamesRunning.new : NamesRunning .new := fun h => absurd rfl h

/-- If the identity is not touched, it is enough that the slot it names is left alone. -/
theorem NamesRunning.frame (h : NamesRunning s) (hcur : t.currentExecution = s.currentExecution)
    (hslot : ∀ k, (s.table.slots k).isRunning = true →
      t.table.slots k = s.table.slots k) : NamesRunning t := by
  intro hne
  rw [hcur] at hne ⊢
  obtain ⟨k, hk, hname⟩ := h hne
  refine ⟨k, ?_⟩
  rw [hslot k hk]
  exact ⟨hk, hname⟩

theorem ne_of_isRunning (hk : (s.table.slots k).isRunning = true)
    (hi : (s.table.slots i).isRunning = false) : k ≠ i := by
  rintro rfl
  rw [hk] at hi
  cases hi

/-- **Only a pause of the process that executes takes the identity off its running slot.** -/
theorem Change.namesRunning (hc : Change s o t) (hs : Consistent s) (h : NamesRunning s)
    (hpause : ∀ handle, o = .paused handle → s.currentExecution = pid0Identity ∨
      s.currentExecution ≠ handle.encode) : NamesRunning t := by
  have hfree : ∀ {i}, s.table.indexOfFree = some i → (s.table.slots i).isRunning = false := by
    intro i hi
    have := (Bool.and_eq_true_iff.mp (position_some hi)).1
    simp only [Bool.not_eq_true'] at this
    simp [isRunning, this]
  by_cases huser : ∃ a, o = .user a
  · obtain ⟨a, rfl⟩ := huser
    obtain ⟨j, hj, -, hcur⟩ := hc.user_running hs.sole
    exact fun _ => ⟨j, hj, hcur.symm⟩
  cases hc with
  | refused => exact h
  | register i launch free fresh valid | commit i pid parent launch free drawn valid =>
    exact h.frame rfl fun k hk => update_of_ne (ne_of_isRunning hk (hfree free)) ..
  | uncommitted nextPid drawn => exact h
  | idleAgain epoch idle alone next
  | exitIdle i exitCode epoch running next => exact fun hne => absurd rfl hne
  | pause i phase before occupied after =>
    intro hne
    have hi : (s.table.slots i).isRunning = false := by
      by_contra hi
      rcases hpause _ rfl with h0 | h1
      · exact hne h0
      · exact h1 (hs.sole i (by simpa using hi))
    exact h.frame rfl (fun k hk => update_of_ne (ne_of_isRunning hk hi) ..) hne
  | reap i occupied zombie =>
    have hi : (s.table.slots i).isRunning = false := by simp [isRunning, zombie]
    exact h.frame rfl fun k hk => update_of_ne (ne_of_isRunning hk hi) ..
  | publish i running => exact fun _ => ⟨i, running, rfl⟩
  | _ => exact absurd ⟨_, rfl⟩ huser

theorem Reply.outcome_ne_paused (r : Reply) (t : State) (handle : ProcessHandle) :
    r.outcome t ≠ .paused handle := by
  cases r with
  | started snapshot =>
    simp only [Reply.outcome, startedReturn]
    split <;> simp
  | decided d => cases d <;> simp [Reply.outcome, ScheduleDecision.toOutcome]
  | _ => simp [Reply.outcome]

/-- Only `mark_runnable` and `mark_blocked` pause a process. -/
theorem Call.sparesCurrent_of_paused {c : Call} {handle : ProcessHandle} (hc : SparesCurrent s c)
    (h : c.outcome s = .paused handle) :
    s.currentExecution = pid0Identity ∨ s.currentExecution ≠ handle.encode := by
  cases c with
  | markRunnable g =>
    cases hx : Lifecycle.markRunnable g s with
    | ok a t =>
      simp only [Call.outcome, Call.perform, reply, hx, Outcome.paused.injEq] at h
      exact h ▸ hc
    | error e t => simp [Call.outcome, Call.perform, reply, hx, Reply.outcome] at h
  | markBlocked g =>
    cases hx : Lifecycle.markBlocked g s with
    | ok a t =>
      simp only [Call.outcome, Call.perform, reply, hx, Outcome.paused.injEq] at h
      exact h ▸ hc
    | error e t => simp [Call.outcome, Call.perform, reply, hx, Reply.outcome] at h
  | commitChild parent launch =>
    cases hx : Lifecycle.commitChild parent launch s <;>
      simp [Call.outcome, Call.perform, reply, hx, Reply.outcome] at h
  | _ => exact absurd h (Reply.outcome_ne_paused _ _ handle)

/-- Setting the phase of the process that executes leaves the identity on an idle slot. -/
theorem not_namesRunning_setPhase (hs : Consistent s) {phase : ProcessPhase}
    (hk : (s.table.slots k).isRunning = true) (hphase : phase ≠ .running) :
    ¬NamesRunning { s with table := s.table.setPhase k phase } := by
  have hok := hs.wellFormed.slot k
  have hocc := (isRunning_iff.mp hk).1
  intro h
  have hne : s.currentExecution ≠ pid0Identity :=
    hs.sole k hk ▸ ProcessHandle.encode_ne_pid0Identity (hok.pid hocc)
  obtain ⟨j, hj, -⟩ := h hne
  simp only [isRunning_setPhase_ne _ _ _ hphase, Bool.and_eq_true, decide_eq_true_eq] at hj
  exact hj.1 (hs.sole.unique hs.wellFormed hj.2 hk)

/-- While the identity is right, the calls that keep it right are those that spare the process
it names. -/
theorem sparesCurrent_iff (hs : Consistent s) (h : NamesRunning s) (c : Call) :
    SparesCurrent s c ↔ NamesRunning (c.perform s).2 := by
  constructor
  · intro hc
    exact (c.perform_change s).namesRunning hs h fun handle => Call.sparesCurrent_of_paused hc
  · -- a pause of the process that executes is not refused
    intro ht
    have hwedged : ∀ {handle : ProcessHandle} (phase : ProcessPhase) {x : Op Unit},
        phase ≠ .running → (∀ k, s.table.indexByHandle handle = some k → handle.pid ≠ noPid →
          (s.table.slots k).phase = .running →
          x s = .ok () { s with table := s.table.setPhase k phase }) →
        NamesRunning (reply (fun _ => .done) x s).2 →
        s.currentExecution = pid0Identity ∨ s.currentExecution ≠ handle.encode := by
      intro handle phase x hphase hx ht
      by_contra hnot
      simp only [not_or, not_not] at hnot
      obtain ⟨k, hk, hname⟩ := h hnot.1
      obtain rfl : (s.table.slots k).handle = handle :=
        ProcessHandle.encode_inj (hname.trans hnot.2)
      obtain ⟨hocc, hrunning⟩ := isRunning_iff.mp hk
      rw [reply, hx k (indexByHandle_of_occupied hs.wellFormed hocc)
        ((hs.wellFormed.slot k).pid hocc) hrunning] at ht
      exact not_namesRunning_setPhase hs hk hphase ht
    cases c with
    | markRunnable handle =>
      exact hwedged .runnable (by decide) (fun k hindex hpid hphase => by
        simp [markRunnable, modifyTable, hindex, hpid, hphase]) ht
    | markBlocked handle =>
      exact hwedged .blocked (by decide) (fun k hindex hpid hphase => by
        simp [markBlocked, modifyTable, hindex, hpid, hphase]) ht
    | _ => trivial

end Invariant

/-- **The scheduler is never wedged along a run if and only if no call of the run pauses the
process that executes**: the published identity then always names a running slot, and, until the
epoch counter is exhausted, that process can resume, yield and exit. -/
theorem everyStep_sparesCurrent_iff (calls : List Call) :
    Run.EveryStep (fun s c => c.perform s) SparesCurrent .new calls ↔
      ∀ pre, pre <+: calls → (run .new pre).currentExecution ≠ pid0Identity →
        (∃ k, ((run .new pre).table.slots k).isRunning = true ∧
          ((run .new pre).table.slots k).handle.encode = (run .new pre).currentExecution) ∧
        ((run .new pre).table.schedulerEpoch.toNat + 1 < 2 ^ 64 → Enabled (run .new pre)) := by
  have hiff : Run.EveryStep (fun s c => c.perform s) SparesCurrent .new calls ↔
      ∀ pre, pre <+: calls → NamesRunning (run .new pre) :=
    Run.everyStep_iff_forall_prefix (I := Consistent)
      (fun s c hs => (c.perform_change s).consistent hs)
      (fun s c hs h => sparesCurrent_iff hs h c) .new .new
  rw [hiff]
  refine ⟨fun h pre hpre hne => ?_, fun h pre hpre hne => (h pre hpre hne).1⟩
  obtain ⟨k, hk, hname⟩ := h pre hpre hne
  exact ⟨⟨k, hk, hname⟩, enabled_of_namesRunning (Consistent.new.run pre).wellFormed hk hname⟩

/-- None of the three calls is enabled while no slot is running. -/
theorem not_enabled_of_idle {s : State} (hidle : ∀ k, (s.table.slots k).isRunning = false) :
    (∀ saved p t, resumeCurrent saved s ≠ .ok p t) ∧
      (∀ saved p t, scheduleYield saved s ≠ .ok p t) ∧
      ∀ exitCode d t, scheduleExit exitCode s ≠ .ok d t := by
  have hnone : ∀ {handle i}, s.table.indexByHandle handle = some i →
      (s.table.slots i).phase ≠ .running := by
    intro handle i hi hphase
    have := isRunning_of_indexByHandle hi hphase
    rw [hidle i] at this
    cases this
  refine ⟨fun saved p t h => ?_, fun saved p t h => ?_, fun exitCode d t h => ?_⟩
  · simp only [resumeCurrent, resumeLocked, bind_validContext_eq_ok, bind_get,
      bind_propagate_eq_ok, bind_runningIndex_eq_ok] at h
    obtain ⟨-, _, -, i, hi, hphase, -⟩ := h
    exact hnone hi hphase
  · simp only [scheduleYield, yieldLocked, bind_validContext_eq_ok, bind_get,
      bind_propagate_eq_ok, bind_runningIndex_eq_ok] at h
    obtain ⟨-, _, -, i, hi, hphase, -⟩ := h
    exact hnone hi hphase
  · simp only [scheduleExit, exitLocked, bind_get, bind_propagate_eq_ok,
      bind_runningIndex_eq_ok] at h
    obtain ⟨_, -, i, hi, hphase, -⟩ := h
    exact hnone hi hphase

/-- Init is started and blocked: its identity stays published, and it can neither resume nor
yield nor exit. -/
theorem markBlocked_wedges :
    let s := run .new [.registerInit sampleLaunch, .markRunning ⟨1, 1⟩, .markBlocked ⟨1, 1⟩]
    s.currentExecution = ProcessHandle.encode ⟨1, 1⟩ ∧ s.currentExecution ≠ pid0Identity ∧
      (∀ k, (s.table.slots k).isRunning = false) ∧
      (∀ saved p t, resumeCurrent saved s ≠ .ok p t) ∧
      (∀ saved p t, scheduleYield saved s ≠ .ok p t) ∧
      ∀ exitCode d t, scheduleExit exitCode s ≠ .ok d t := by
  intro s
  have hidle : ∀ k, (s.table.slots k).isRunning = false := by decide +kernel
  exact ⟨by decide +kernel, by decide +kernel, hidle, not_enabled_of_idle hidle⟩

end Sisyphus.Lifecycle
