import Sisyphus.Process.Registry

/-!
# Lifecycle calls from several processors

The table is behind a lock, so a call that only touches the shared state while it holds the lock
is one step.  Four calls are not of this kind.  `resume_current`, `schedule_yield` and
`schedule_exit` load the published identity before they take the lock; `publish_current` drops
the lock between checking that a process is running and storing its identity.  Each of these is
two steps here, with a program counter (`Pc`) that holds what the processor took along from the
first to the second.

A stale load is harmless: the locked half finds the slot again and insists that it is running.
A delayed store is not.  Between the check and the store another processor can hand over to a
different process, and the store then publishes a process that no longer runs
(`publishCurrent_races`).  `everyStep_timelyStore_iff` says that this is the only way to lose the
invariant of the sequential registry.
-/

set_option autoImplicit false

namespace Sisyphus.Lifecycle

open Fallible

/-- What a processor has done of the call it is in. -/
inductive Pc where
  | idle
  /-- `resume_current` has loaded the identity. -/
  | resuming (saved : SavedUserContext) (valid : saved.validate = .ok ()) (current : ProcessHandle)
  /-- `schedule_yield` has loaded the identity. -/
  | yielding (saved : SavedUserContext) (valid : saved.validate = .ok ()) (current : ProcessHandle)
  /-- `schedule_exit` has loaded the identity. -/
  | exiting (exitCode : Int64) (current : ProcessHandle)
  /-- `publish_current` has checked the process and dropped the lock. -/
  | publishing (handle : ProcessHandle)

/-- The state an action leaves, whatever it returns. -/
def after {α : Type} (x : Op α) (s : State) : State := (reply (fun _ => .done) x s).2

/-- The common first step of `resume_current` and `schedule_yield`: validates the context and
loads the identity. -/
def load (saved : SavedUserContext) (pc : saved.validate = .ok () → ProcessHandle → Pc)
    (s : State) : Pc × State :=
  match valid : saved.validate, currentUserHandle s with
  | .ok (), .ok current => (pc valid current, s)
  | _, _ => (.idle, s)

/-- The first step of a call. -/
def Call.start (c : Call) (s : State) : Pc × State :=
  match c with
  | .resumeCurrent saved => load saved (fun valid current => .resuming saved valid current) s
  | .scheduleYield saved =>
    load saved (fun valid current => .yielding (saved.setSyscallResult 0) valid current) s
  | .scheduleExit exitCode =>
    match currentUserHandle s with
    | .ok current => (.exiting exitCode current, s)
    | .error _ => (.idle, s)
  | .publishCurrent handle =>
    if handle.pid == noPid then (.idle, s)
    else
      match publishCheck handle s with
      | .ok () t => (.publishing handle, t)
      | .error _ t => (.idle, t)
  | c => (.idle, (c.perform s).2)

/-- The second step of a call, which completes it. -/
def Pc.finish (pc : Pc) (s : State) : State :=
  match pc with
  | .idle => s
  | .resuming saved _ current => after (resumeLocked saved current) s
  | .yielding saved _ current => after (yieldLocked saved current) s
  | .exiting exitCode current => after (exitLocked exitCode current) s
  | .publishing handle => after (storeCurrent handle.encode) s

theorem snd_reply {α : Type} (ok : α → Reply) (x : Op α) (s : State) :
    (reply ok x s).2 = after x s := by
  simp only [after, reply]
  cases x s <;> rfl

theorem load_snd (saved : SavedUserContext) (pc : saved.validate = .ok () → ProcessHandle → Pc)
    (s : State) : (load saved pc s).2 = s := by
  rw [load]
  split <;> rfl

theorem finish_load {α : Type} {saved : SavedUserContext}
    {pc : saved.validate = .ok () → ProcessHandle → Pc} {locked : ProcessHandle → Op α} {s : State}
    (hpc : ∀ hv current, (pc hv current).finish s = after (locked current) s) :
    (load saved pc s).1.finish (load saved pc s).2 =
      after (validContext saved.validate >>= fun _ => get >>= fun s =>
        propagate (currentUserHandle s) >>= locked) s := by
  rw [load]
  split
  · rename_i hv hcur
    rw [hpc]
    simp [after, reply, hv, hcur, validContext, propagate]
  · rename_i hnot
    rcases hv : saved.validate with e | ⟨⟩
    · simp [Pc.finish, after, reply, validContext]
    · rcases hcur : currentUserHandle s with e | current
      · simp [Pc.finish, after, reply, hcur, validContext, propagate]
      · exact absurd hcur (hnot current hv)

/-- A processor that is not interrupted between its two steps makes the sequential call. -/
theorem Call.finish_start (c : Call) (s : State) :
    (c.start s).1.finish (c.start s).2 = (c.perform s).2 := by
  cases c with
  | resumeCurrent saved
  | scheduleYield saved => exact (finish_load fun _ _ => rfl).trans (snd_reply ..).symm
  | scheduleExit exitCode =>
    simp only [Call.start, Call.perform, snd_reply]
    split
    · rename_i hcur
      simp [Pc.finish, after, reply, Lifecycle.scheduleExit, hcur, propagate]
    · rename_i hcur
      simp [Pc.finish, after, reply, Lifecycle.scheduleExit, hcur, propagate]
  | publishCurrent handle =>
    simp only [Call.start, Call.perform, snd_reply]
    split
    · rename_i hpid
      simp [Pc.finish, after, reply, Lifecycle.publishCurrent, hpid, refuse]
    · rename_i hpid
      cases hcheck : publishCheck handle s <;>
        simp [Pc.finish, after, reply, Lifecycle.publishCurrent, hpid, refuse, bind_apply, hcheck,
          storeCurrent]
  | _ => rfl

/-! ## The shared state -/

variable {κ : Type} [DecidableEq κ]

/-- The shared state and where each processor is. -/
structure Config (κ : Type) where
  shared : State
  pc : κ → Pc

def Config.new : Config κ := ⟨.new, fun _ => .idle⟩

/-- `cpu` makes its next step: the one it is in the middle of, or else the first step of `call`. -/
def Config.step (c : Config κ) (next : κ × Call) : Unit × Config κ :=
  match c.pc next.1 with
  | .idle =>
    let (pc, shared) := next.2.start c.shared
    ((), ⟨shared, Function.update c.pc next.1 pc⟩)
  | pc => ((), ⟨pc.finish c.shared, Function.update c.pc next.1 .idle⟩)

/-- The configuration after a schedule. -/
def Config.run (schedule : List (κ × Call)) : Config κ := Run.final Config.step .new schedule

@[simp] theorem Config.step_shared_of_idle {c : Config κ} {next : κ × Call}
    (h : c.pc next.1 = .idle) : (c.step next).2.shared = (next.2.start c.shared).2 := by
  simp [Config.step, h]

@[simp] theorem Config.step_shared_of_busy {c : Config κ} {next : κ × Call}
    (h : c.pc next.1 ≠ .idle) : (c.step next).2.shared = (c.pc next.1).finish c.shared := by
  rw [Config.step]
  split
  · contradiction
  · rfl

/-- No call is in flight. -/
def Config.Quiescent (c : Config κ) : Prop := ∀ cpu, c.pc cpu = .idle

/-- When a delayed store of `publish_current` takes effect, no process runs but the one it
publishes. -/
def TimelyStore (c : Config κ) (next : κ × Call) : Prop :=
  ∀ handle, c.pc next.1 = .publishing handle →
    ∀ k, (c.shared.table.slots k).isRunning = true → (c.shared.table.slots k).handle = handle

section Steps

variable {s : State}

theorem Makes.change_after {α : Type} {x : Op α} {out : α → State → Outcome} (h : Makes x s out) :
    ∃ o, Change s o (after x s) := by
  rcases h.cases with ⟨a, t, hx, hc⟩ | ⟨e, t, hx, rfl⟩
  · exact ⟨_, by simpa only [after, reply, hx] using hc⟩
  · exact ⟨_, by simpa only [after, reply, hx] using .refused⟩

theorem Call.start_change (c : Call) (s : State) : ∃ o, Change s o (c.start s).2 := by
  cases c with
  | resumeCurrent saved | scheduleYield saved =>
    simp only [Call.start, load_snd]
    exact ⟨_, .refused⟩
  | scheduleExit exitCode =>
    simp only [Call.start]
    split <;> exact ⟨_, .refused⟩
  | publishCurrent handle =>
    simp only [Call.start]
    split
    · exact ⟨_, .refused⟩
    · split
      · next hcheck => exact ⟨.keep, ensures_publishCheck.of_ok hcheck ▸ .refused⟩
      · next hcheck => exact ⟨.keep, ensures_publishCheck.of_error hcheck ▸ .refused⟩
  | _ => exact ⟨_, Call.perform_change _ s⟩

/-- Every second step but the delayed store is a change of the sequential registry. -/
theorem Pc.finish_change {pc : Pc} (h : ∀ handle, pc ≠ .publishing handle) (s : State) :
    ∃ o, Change s o (pc.finish s) := by
  cases pc with
  | idle => exact ⟨_, .refused⟩
  | resuming saved valid current => exact (makes_resumeLocked valid).change_after
  | yielding saved valid current => exact (makes_yieldLocked valid).change_after
  | exiting exitCode current => exact makes_exitLocked.change_after
  | publishing handle => exact absurd rfl (h handle)

end Steps

/-- A step is a change of the sequential registry, or a delayed store. -/
theorem Config.step_change (c : Config κ) (next : κ × Call) :
    (∃ o, Change c.shared o (c.step next).2.shared) ∨ ∃ handle, c.pc next.1 = .publishing handle ∧
        (c.step next).2.shared = { c.shared with currentExecution := handle.encode } := by
  by_cases hidle : c.pc next.1 = .idle
  · rw [c.step_shared_of_idle hidle]
    exact .inl (next.2.start_change c.shared)
  · rw [c.step_shared_of_busy hidle]
    by_cases hpub : ∃ handle, c.pc next.1 = .publishing handle
    · obtain ⟨handle, hpc⟩ := hpub
      exact .inr ⟨handle, hpc, by rw [hpc]; rfl⟩
    · exact .inl (Pc.finish_change (fun handle hpc => hpub ⟨handle, hpc⟩) c.shared)

theorem Config.step_wellFormed (c : Config κ) (next : κ × Call)
    (h : WellFormed c.shared.table) : WellFormed (c.step next).2.shared.table := by
  rcases c.step_change next with ⟨o, hc⟩ | ⟨handle, -, hs⟩
  · exact hc.wellFormed h
  · rw [hs]
    exact h

/-- While only the published process runs, exactly the timely stores keep it so. -/
theorem Config.timelyStore_iff (c : Config κ) (next : κ × Call) (wf : WellFormed c.shared.table)
    (h : SoleRunning c.shared) : TimelyStore c next ↔ SoleRunning (c.step next).2.shared := by
  rcases hstep : c.pc next.1 with _ | _ | _ | _ | handle
  case publishing =>
    rw [c.step_shared_of_busy (by simp [hstep]), hstep]
    constructor
    · intro htimely k hk
      show handle.encode = _
      rw [← htimely handle hstep k hk]
      rfl
    · intro hsole g hg k hk
      obtain rfl : handle = g := by simpa [hstep] using hg
      exact (ProcessHandle.encode_inj (hsole k hk)).symm
  all_goals
    refine iff_of_true (fun g hg => by simp [hstep] at hg) ?_
    rcases c.step_change next with ⟨o, hc⟩ | ⟨g, hg, -⟩
    · exact hc.soleRunning wf h
    · simp [hstep] at hg

/-- **In every interleaving, the published identity names every running slot (so that there is at
most one) all the time, if and only if every delayed store is timely.**  In particular it does
whenever no call is in flight. -/
theorem everyStep_timelyStore_iff (schedule : List (κ × Call)) :
    Run.EveryStep Config.step TimelyStore (.new : Config κ) schedule ↔
      ∀ pre, pre <+: schedule → ∀ k, ((Config.run pre).shared.table.slots k).isRunning = true →
        (Config.run pre).shared.currentExecution =
          ((Config.run pre).shared.table.slots k).handle.encode ∧
        ∀ j, ((Config.run pre).shared.table.slots j).isRunning = true → j = k := by
  have hwf : ∀ pre : List (κ × Call), WellFormed (Config.run pre).shared.table := fun pre =>
    Run.invariant_final (I := fun c : Config κ => WellFormed c.shared.table)
      (fun c next => c.step_wellFormed next) WellFormed.new
  have hiff : Run.EveryStep Config.step TimelyStore (.new : Config κ) schedule ↔
      ∀ pre, pre <+: schedule → SoleRunning (Config.run pre).shared :=
    Run.everyStep_iff_forall_prefix (I := fun c : Config κ => WellFormed c.shared.table)
      (J := fun c => SoleRunning c.shared) (fun c next => c.step_wellFormed next)
      (fun c next => c.timelyStore_iff next) WellFormed.new SoleRunning.new
  rw [hiff]
  exact ⟨fun h pre hpre k hk => ⟨h pre hpre k hk, fun j hj => (h pre hpre).unique (hwf pre) hj hk⟩,
    fun h pre hpre k hk => (h pre hpre k hk).1⟩

/-- Two processors: `false` is about to publish init, which it has just checked, when init yields
to its child on `true`.  The late store leaves the child running under init's identity. -/
def racySchedule : List (Bool × Call) :=
  [(false, .registerInit sampleLaunch), (false, .markRunning ⟨1, 1⟩),
    (false, .commitChild 1 sampleLaunch), (false, .publishCurrent ⟨1, 1⟩),
    (true, .scheduleYield (.initial 0x2000 0x8000)), (true, .scheduleYield .empty),
    (false, .scheduleYield .empty)]

theorem publishCurrent_races : (Config.run racySchedule).Quiescent ∧
      ∃ k, ((Config.run racySchedule).shared.table.slots k).isRunning = true ∧
        (Config.run racySchedule).shared.currentExecution ≠
          ((Config.run racySchedule).shared.table.slots k).handle.encode := by
  refine ⟨?_, ⟨1, by decide⟩, by decide +kernel, by decide +kernel⟩
  rintro (_ | _)
  · rfl
  · rfl

end Sisyphus.Lifecycle
