import Sisyphus.Foundation.Run
import Sisyphus.Process.Transitions

/-!
# Runs of the registry, and what always holds of it

`Call` lists the public functions that can change the lifecycle state, `Call.perform` runs one and
`run` a sequence of them, one after the other (`Sisyphus.Process.Interleaving` runs them
concurrently).  The functions that only read the table (`wait_child`, `snapshot`,
`next_runnable`) are not calls: they take the table by reference and cannot change it.

Two invariants are proved here, by one case analysis on `Change` each.  `WellFormed` is about the
table alone: an occupied slot has a real pid, a launch image and a context that validate, and no
two occupied slots share a pid.  `SoleRunning` relates it to the atomic beside it: a running slot
is the one the published identity names.
-/

set_option autoImplicit false

namespace Sisyphus.Lifecycle

open Fallible Function ProcessSlot ProcessTable

/-! ## Calls and runs -/

/-- A call of one of the public functions that can change the lifecycle state. -/
inductive Call where
  | registerInit (launch : ProcessLaunch)
  | commitChild (parent : UInt32) (launch : ProcessLaunch)
  | publishCurrent (handle : ProcessHandle)
  | markRunning (handle : ProcessHandle)
  | resumeCurrent (saved : SavedUserContext)
  | scheduleYield (saved : SavedUserContext)
  | schedulePreempt (saved : SavedUserContext) (authority : ExecutionAuthority)
  | scheduleExit (exitCode : Int64)
  | scheduleFromPid0 (authority : Pid0Authority)
  | markRunnable (handle : ProcessHandle)
  | markBlocked (handle : ProcessHandle)
  | reapChild (parent : UInt32) (handle : ProcessHandle)

/-- What a call returns. -/
inductive Reply where
  | issued (handle : ProcessHandle)
  | started (snapshot : ProcessSnapshot)
  | scheduled (process : ScheduledProcess)
  | decided (decision : ScheduleDecision)
  | reaped (status : Int64)
  | done
  | failed (error : LifecycleError)
  deriving DecidableEq

/-- Runs an action and packs its result into a `Reply`. -/
def reply {α : Type} (ok : α → Reply) (x : Op α) (s : State) : Reply × State :=
  match x s with
  | .ok a t => (ok a, t)
  | .error e t => (.failed e, t)

def Call.perform : Call → State → Reply × State
  | .registerInit launch => reply .issued (Lifecycle.registerInit launch)
  | .commitChild parent launch => reply .issued (Lifecycle.commitChild parent launch)
  | .publishCurrent handle => reply (fun _ => .done) (Lifecycle.publishCurrent handle)
  | .markRunning handle => reply .started (Lifecycle.markRunning handle)
  | .resumeCurrent saved => reply .scheduled (Lifecycle.resumeCurrent saved)
  | .scheduleYield saved => reply .scheduled (Lifecycle.scheduleYield saved)
  | .schedulePreempt saved authority =>
    reply .scheduled (Lifecycle.schedulePreempt saved authority)
  | .scheduleExit exitCode => reply .decided (Lifecycle.scheduleExit exitCode)
  | .scheduleFromPid0 authority => reply .decided (Lifecycle.scheduleFromPid0 authority)
  | .markRunnable handle => reply (fun _ => .done) (Lifecycle.markRunnable handle)
  | .markBlocked handle => reply (fun _ => .done) (Lifecycle.markBlocked handle)
  | .reapChild parent handle => reply .reaped (Lifecycle.reapChild parent handle)

/-- The state after a sequence of calls. -/
def run (s : State) (calls : List Call) : State := Run.final (fun s c => c.perform s) s calls

/-- The return the architecture may take after a `mark_running` that left the state in `t`: the
context stored in the slot that was started. -/
def startedReturn (t : State) (handle : ProcessHandle) : Outcome :=
  match t.table.indexByHandle handle with
  | some i =>
    .user (t.table.scheduled i (t.table.slots i).context t.table.schedulerEpoch).authorizedReturn
  | none => .keep

/-- What a reply that left the state in `t` announces. -/
def Reply.outcome (t : State) : Reply → Outcome
  | .issued handle => .issued handle
  | .started snapshot => startedReturn t snapshot.handle
  | .scheduled p => .user p.authorizedReturn
  | .decided d => d.toOutcome
  | _ => .keep

def Call.outcome (c : Call) (s : State) : Outcome :=
  match c, c.perform s with
  | .commitChild _ _, (.failed _, _) => .uncommitted
  | .markRunnable handle, (.done, _) => .paused handle
  | .markBlocked handle, (.done, _) => .paused handle
  | _, (reply, t) => reply.outcome t

/-! ## The table invariant -/

/-- What holds of a single slot. -/
structure SlotOk (slot : ProcessSlot) : Prop where
  generation : slot.generation ≠ 0
  pid : slot.occupied = true → slot.pid ≠ noPid
  launch : slot.occupied = true → slot.launch.validate = true
  context : slot.occupied = true → slot.context.validate = .ok ()

structure WellFormed (table : ProcessTable) : Prop where
  slot : ∀ k, SlotOk (table.slots k)
  pid_inj : ∀ i k, (table.slots i).occupied = true → (table.slots k).occupied = true →
    (table.slots i).pid = (table.slots k).pid → i = k

variable {generation : UInt32}

theorem SlotOk.empty (h : generation ≠ 0) : SlotOk { empty with generation } where
  generation := h
  pid h := by simp [ProcessSlot.empty] at h
  launch h := by simp [ProcessSlot.empty] at h
  context h := by simp [ProcessSlot.empty] at h

theorem WellFormed.new : WellFormed .new where
  slot _ := SlotOk.empty (by decide : (1 : UInt32) ≠ 0)
  pid_inj _ _ h := by simp [ProcessTable.new, empty] at h

variable {i : SlotIndex} {table : ProcessTable}

/-- Every dispatch built from a valid launch and a valid saved context is valid. -/
theorem ProcessTable.scheduled_validate {user : SavedUserContext} (epoch : UInt64)
    (hl : (table.slots i).launch.validate = true) (hu : user.validate = .ok ()) :
      (table.scheduled i user epoch).context.validate = .ok () := by
  simp only [ProcessLaunch.validate, Bool.and_eq_true] at hl
  exact DispatchContext.validate_eq_ok hu hl.1.1.1.1.1 hl.1.1.2

namespace WellFormed

variable {table table' : ProcessTable}

theorem congr (h : WellFormed table) (hs : table'.slots = table.slots) : WellFormed table' := by
  refine ⟨fun k => ?_, fun i k => ?_⟩
  · rw [hs]
    exact h.slot k
  · rw [hs]
    exact h.pid_inj i k

variable {i : SlotIndex} {slot : ProcessSlot}

section

variable (h : WellFormed table)
include h

/-- One slot is replaced, by a process whose pid no other slot has or by none. -/
theorem replace (hok : SlotOk slot)
    (fresh : slot.occupied = true → ∀ k, k ≠ i → (table.slots k).occupied = true →
      (table.slots k).pid ≠ slot.pid) : WellFormed (table.setSlot i slot) := by
  constructor
  · exact (forall_update_iff _ fun _ => SlotOk).mpr ⟨hok, fun k _ => h.slot k⟩
  · intro a b ha hb hab
    by_cases hai : a = i <;> by_cases hbi : b = i
    · rw [hai, hbi]
    · subst hai
      simp only [setSlot_slots, update_self, update_of_ne hbi] at ha hb hab
      exact absurd hab.symm (fresh ha b hbi hb)
    · subst hbi
      simp only [setSlot_slots, update_self, update_of_ne hai] at ha hb hab
      exact absurd hab (fresh hb a hai ha)
    · simp only [setSlot_slots, update_of_ne hai, update_of_ne hbi] at ha hb hab
      exact h.pid_inj a b ha hb hab

/-- A change of one slot that keeps its identity keeps the table well formed. -/
theorem setSlot (hok : SlotOk slot)
    (ho : slot.occupied = (table.slots i).occupied) (hp : slot.pid = (table.slots i).pid) :
    WellFormed (table.setSlot i slot) :=
  h.replace hok fun hi k hne hk hpid => hne (h.pid_inj k i hk (ho ▸ hi) (hpid.trans hp))

theorem setPhase (i : SlotIndex) (phase : ProcessPhase) :
    WellFormed (table.setPhase i phase) :=
  have hi := h.slot i
  h.setSlot ⟨hi.generation, hi.pid, hi.launch, hi.context⟩ rfl rfl

theorem setContext (i : SlotIndex) {context : SavedUserContext}
    (hv : context.validate = .ok ()) : WellFormed (table.setContext i context) :=
  have hi := h.slot i
  h.setSlot ⟨hi.generation, hi.pid, hi.launch, fun _ => hv⟩ rfl rfl

theorem exit (i : SlotIndex) (exitCode : Int64) (waitSequence : UInt64) :
    WellFormed (table.setSlot i
      { table.slots i with phase := .zombie, exitCode, waitSequence }) :=
  have hi := h.slot i
  h.setSlot ⟨hi.generation, hi.pid, hi.launch, hi.context⟩ rfl rfl

end

end WellFormed

theorem toNat_add_one (h : generation ≠ generationMax) :
    (generation + 1).toNat = generation.toNat + 1 := by
  have hlt := generation.toNat_lt
  have hmax : generation.toNat ≠ 4294967295 := fun e => h (UInt32.toNat_inj.mp e)
  rw [UInt32.toNat_add, show UInt32.toNat 1 = 1 from rfl]
  omega

variable {slot : ProcessSlot}

theorem ProcessSlot.generation_ne_max (free : slot.isFree = true) :
    slot.generation ≠ generationMax := by
  simpa [isFree] using (Bool.and_eq_true_iff.mp free).2

theorem reapedGeneration_ne_zero : reapedGeneration generation ≠ 0 := by
  rw [reapedGeneration]
  split
  · decide
  · rename_i h
    intro h0
    have := toNat_add_one (by simpa using h)
    rw [h0] at this
    simp at this

variable {launch : ProcessLaunch}

/-- A new process, once its handle is a proper one. -/
theorem SlotOk.newSlot {pid parent : UInt32} {wait : UInt64} (hp : pid ≠ noPid)
    (hg : generation ≠ 0) (hv : launch.validate = true) :
    SlotOk (newSlot pid parent generation launch wait) where
  generation := hg
  pid _ := hp
  launch _ := hv
  context _ := by
    simp only [ProcessLaunch.validate, Bool.and_eq_true] at hv
    exact SavedUserContext.validate_initial hv.1.1.1.1.2 hv.1.1.1.2

variable {s t : State} {j : SlotIndex} {d : Outcome}

theorem Change.wellFormed (hc : Change s d t) (h : WellFormed s.table) : WellFormed t.table := by
  cases hc with
  | refused => exact h
  | register i launch free fresh valid =>
    exact h.replace (SlotOk.newSlot (by decide) (h.slot i).generation valid) fun _ k _ => fresh k
  | commit i pid parent launch free drawn valid =>
    obtain ⟨fresh, htwo⟩ := allocatePid_some drawn
    have huser : pid ≠ noPid := by
      rintro rfl
      exact absurd htwo (by decide)
    have hok : SlotOk (Lifecycle.newSlot pid parent ((s.table.slots i).generation + 1) launch
        s.table.schedulerEpoch) := by
      refine .newSlot huser (fun hzero => ?_) valid
      -- the slot would have been retired before its counter could wrap
      have := toNat_add_one (generation_ne_max (position_some free))
      rw [hzero] at this
      simp at this
    exact (h.replace (i := i) hok fun _ k _ => fresh k).congr rfl
  | uncommitted nextPid drawn => exact h.congr rfl
  | resume i saved epoch running valid next => exact (h.setContext i valid).congr rfl
  | switch i j saved epoch running runnable valid next =>
    exact (((h.setContext i valid).setPhase i .runnable).setPhase j .running).congr rfl
  | reselect i saved epoch running valid next => exact (h.setContext i valid).congr rfl
  | start j epoch idle alone runnable next => exact (h.setPhase j .running).congr rfl
  | idleAgain epoch idle alone next => exact h.congr rfl
  | exitTo i j exitCode epoch running runnable next =>
    exact ((h.exit i exitCode epoch).setPhase j .running).congr rfl
  | exitIdle i exitCode epoch running next => exact (h.exit i exitCode epoch).congr rfl
  | pause i phase before occupied after => exact h.setPhase i phase
  | reap i occupied zombie =>
    exact h.replace (SlotOk.empty reapedGeneration_ne_zero) fun hi => by cases hi
  | publish i running => exact h

/-- The slot of a handle in use is found under it. -/
theorem indexByHandle_of_occupied (wf : WellFormed s.table)
    (hi : (s.table.slots i).occupied = true) :
    s.table.indexByHandle (s.table.slots i).handle = some i := by
  cases hk : s.table.indexByHandle (s.table.slots i).handle with
  | none =>
    have := position_none hk i
    simp [names, handle, hi] at this
  | some k =>
    obtain ⟨ho, hh⟩ := indexByHandle_some hk
    rw [wf.pid_inj k i ho hi (congrArg ProcessHandle.pid hh)]

/-! ## The published identity -/

namespace ProcessTable

variable (t : ProcessTable) (i k : SlotIndex)

@[simp] theorem handle_setPhase (phase : ProcessPhase) :
    ((t.setPhase i phase).slots k).handle = (t.slots k).handle := by
  by_cases h : k = i
  · subst h
    simp [setPhase, handle]
  · simp [setPhase, h]

@[simp] theorem handle_setContext (context : SavedUserContext) :
    ((t.setContext i context).slots k).handle = (t.slots k).handle := by
  by_cases h : k = i
  · subst h
    simp [setContext, handle]
  · simp [setContext, h]

@[simp] theorem isRunning_setContext (context : SavedUserContext) :
    ((t.setContext i context).slots k).isRunning = (t.slots k).isRunning := by
  by_cases h : k = i
  · subst h
    simp [setContext, isRunning]
  · simp [setContext, h]

theorem isRunning_setPhase_ne {phase : ProcessPhase} (h : phase ≠ .running) :
    ((t.setPhase i phase).slots k).isRunning = (decide (k ≠ i) && (t.slots k).isRunning) := by
  by_cases hk : k = i
  · subst hk
    simp [setPhase, isRunning, h]
  · simp [setPhase, hk]

end ProcessTable

/-- Every running slot is the one the published identity names. -/
def SoleRunning (s : State) : Prop :=
  ∀ k, (s.table.slots k).isRunning = true → s.currentExecution = (s.table.slots k).handle.encode

theorem SoleRunning.new : SoleRunning .new := by
  intro k h
  simp [State.new, ProcessTable.new, empty, isRunning] at h

/-- At most one slot is running. -/
theorem SoleRunning.unique (h : SoleRunning s) (wf : WellFormed s.table) {k : SlotIndex}
    (hi : (s.table.slots i).isRunning = true) (hk : (s.table.slots k).isRunning = true) :
    i = k := by
  have hsame := ProcessHandle.encode_inj ((h i hi).symm.trans (h k hk))
  exact wf.pid_inj i k (isRunning_iff.mp hi).1 (isRunning_iff.mp hk).1
    (congrArg ProcessHandle.pid hsame)

/-- A slot is replaced by one that does not run, and nothing is published. -/
theorem SoleRunning.replace (h : SoleRunning s) (idle : slot.isRunning = false)
    (hs : t.table.slots = update s.table.slots i slot)
    (hcur : t.currentExecution = s.currentExecution) : SoleRunning t := by
  intro k hk
  rw [hs] at hk ⊢
  have hki : k ≠ i := by
    rintro rfl
    simp [idle] at hk
  rw [update_of_ne hki] at hk ⊢
  rw [hcur]
  exact h k hk

/-- Handing over to `j` when nothing else runs. -/
theorem SoleRunning.handover {epoch : UInt64}
    (alone : ∀ k, k ≠ j → (table.slots k).isRunning = false)
    (same : (table.slots j).handle = (s.table.slots j).handle) :
    SoleRunning ⟨{ table.setPhase j .running with schedulerEpoch := epoch },
      (s.table.slots j).handle.encode, epoch⟩ := by
  intro k hk
  have hkj : k = j := by
    by_contra hne
    exact absurd hk (by simpa [setPhase, hne] using alone k hne)
  subst hkj
  show _ = ((table.setPhase k .running).slots k).handle.encode
  rw [handle_setPhase, same]

/-- Once the slot that runs has stopped, no slot runs. -/
theorem SoleRunning.stopped (h : SoleRunning s) (wf : WellFormed s.table) {i : SlotIndex}
    {slot : ProcessSlot} (running : (s.table.slots i).isRunning = true)
    (hslot : slot.phase ≠ .running) (k : SlotIndex) :
    (update s.table.slots i slot k).isRunning = false := by
  by_cases hki : k = i
  · simp [hki, isRunning, hslot]
  · rw [update_of_ne hki]
    by_contra hk
    exact hki (h.unique wf (by simpa using hk) running)

theorem Change.soleRunning (hc : Change s d t) (wf : WellFormed s.table)
    (h : SoleRunning s) : SoleRunning t := by
  cases hc with
  | refused => exact h
  | register i launch free fresh valid
  | commit i pid parent launch free drawn valid => exact h.replace rfl rfl rfl
  | uncommitted nextPid drawn => exact h
  | resume i saved epoch running valid next =>
    intro k hk
    simp only [isRunning_setContext, handle_setContext] at hk ⊢
    exact h k hk
  | switch i j saved epoch running runnable valid next =>
    refine SoleRunning.handover (fun k hkj => ?_) (by simp)
    rw [isRunning_setPhase_ne _ _ _ (by decide), isRunning_setContext]
    by_contra hk
    simp only [Bool.not_eq_false, Bool.and_eq_true, decide_eq_true_eq] at hk
    exact hk.1 (h.unique wf hk.2 running)
  | reselect i saved epoch running valid next =>
    intro k hk
    simp only [isRunning_setContext, handle_setContext] at hk ⊢
    rw [h.unique wf running hk]
  | start j epoch idle alone runnable next => exact .handover (fun k _ => alone k) rfl
  | idleAgain epoch idle alone next =>
    intro k hk
    simp [alone k] at hk
  | exitTo i j exitCode epoch running runnable next =>
    refine SoleRunning.handover (fun k _ => h.stopped wf running (by simp) k) ?_
    · by_cases hji : j = i
      · subst hji
        simp [handle]
      · simp [hji]
  | exitIdle i exitCode epoch running next =>
    exact fun k hk => absurd hk (by simpa using h.stopped wf running (by simp) k)
  | pause i phase before occupied after =>
    have hne : phase ≠ .running := by rcases after with rfl | rfl <;> decide
    intro k hk
    simp only [isRunning_setPhase_ne _ _ _ hne, Bool.and_eq_true, handle_setPhase] at hk ⊢
    exact h k hk.2
  | reap i occupied zombie => exact h.replace rfl rfl rfl
  | publish i running =>
    intro k hk
    rw [h.unique wf running hk]

/-- The return that the table expects for slot `i`. -/
def State.expected (s : State) (i : SlotIndex) : AuthorizedUserReturn :=
  (s.table.scheduled i (s.table.slots i).context s.table.schedulerEpoch).authorizedReturn

/-- A decision for user mode leaves a running slot behind that is published, and of which it is the
expected return. -/
theorem Change.user_running {a : AuthorizedUserReturn} (hc : Change s (.user a) t)
    (h : SoleRunning s) : ∃ j, (t.table.slots j).isRunning = true ∧ a = t.expected j ∧
      t.currentExecution = (t.table.slots j).handle.encode := by
  cases hc with
  | resume i saved epoch running valid next =>
    refine ⟨i, by simpa using running, ?_, by simpa using h i running⟩
    simp [State.expected, scheduled, setContext, handle]
  | switch i j saved epoch running runnable valid next =>
    have hij := ne_of_runnable running runnable
    refine ⟨j, ?_, ?_, by simp⟩
    · simp [setPhase, setContext, isRunning, hij, (isRunnable_iff.mp runnable).1]
    · simp [State.expected, scheduled, setPhase, setContext, handle, hij]
  | reselect i saved epoch running valid next =>
    refine ⟨i, by simpa using running, ?_, by simp⟩
    simp [State.expected, scheduled, setContext, handle]
  | start j epoch idle alone runnable next =>
    refine ⟨j, ?_, ?_, by simp⟩
    · simp [setPhase, isRunning, (isRunnable_iff.mp runnable).1]
    · simp [State.expected, scheduled, setPhase, handle]
  | exitTo i j exitCode epoch running runnable next =>
    have hij := ne_of_runnable running runnable
    refine ⟨j, ?_, ?_, by simp [hij]⟩
    · simp [setPhase, isRunning, hij, (isRunnable_iff.mp runnable).1]
    · simp [State.expected, scheduled, setPhase, handle, hij]

/-! ## Runs -/

section Runs

variable {s t : State}

variable {handle : ProcessHandle}

theorem makes_registerInit :
    Makes (registerInit launch) s fun handle _ => .issued handle := by
  refine (ensures_registerInit launch s).imp_ok ?_
  rintro _ _ ⟨i, hi, hvalid, hfresh, rfl, rfl⟩
  exact .register i launch hi hfresh hvalid

theorem makes_reapChild {parent : UInt32} : Makes (reapChild parent handle) s fun _ _ => .keep := by
  refine (ensures_reapChild parent handle s).imp_ok ?_
  rintro _ _ ⟨i, hi, hphase, rfl⟩
  exact .reap i (indexByHandle_some hi).1 hphase

variable {saved : SavedUserContext}

theorem makes_resumeCurrent :
    Makes (resumeCurrent saved) s fun p _ => .user p.authorizedReturn := by
  simp only [Makes, resumeCurrent, ensures_rules, ensures_validContext]
  exact fun hv current _ => makes_resumeLocked hv

theorem makes_scheduleYield :
    Makes (scheduleYield saved) s fun p _ => .user p.authorizedReturn := by
  simp only [Makes, scheduleYield, ensures_rules, ensures_validContext]
  exact fun hv current _ =>
    makes_yieldLocked ((SavedUserContext.validate_setSyscallResult saved 0).trans hv)

theorem makes_scheduleExit {exitCode : Int64} :
    Makes (scheduleExit exitCode) s fun d _ => d.toOutcome := by
  simp only [Makes, scheduleExit, ensures_rules]
  exact fun current _ => makes_exitLocked

/-- A started process is found again under its handle, with its stored context. -/
theorem startedReturn_eq {epoch current : UInt64} (hj : s.table.indexByHandle handle = some j) :
    startedReturn ⟨{ s.table.setPhase j .running with schedulerEpoch := epoch }, current, epoch⟩
        handle =
      .user (s.table.scheduled j (s.table.slots j).context epoch).authorizedReturn := by
  have hsame : ∀ k, ((s.table.setPhase j .running).slots k).names handle =
      (s.table.slots k).names handle := by
    intro k
    by_cases hk : k = j
    · subst hk
      simp [setPhase, names]
    · simp [setPhase, hk]
  have hfind : ({ s.table.setPhase j .running with schedulerEpoch := epoch } :
      ProcessTable).indexByHandle handle = some j := by
    simp only [indexByHandle, position, hsame]
    exact hj
  simp only [startedReturn, hfind]
  simp [scheduled, setPhase, ProcessSlot.handle]

theorem makes_markRunning :
    Makes (markRunning handle) s fun snapshot t => startedReturn t snapshot.handle := by
  refine ensures_markRunning.imp_ok ?_
  rintro _ t ⟨j, epoch, hidle, halone, hj, hphase, hnext, rfl, ht⟩
  obtain ⟨hocc, hhandle⟩ := indexByHandle_some hj
  have hstarted : startedReturn t handle = _ := ht ▸ startedReturn_eq hj
  change Change s (startedReturn t (s.table.slots j).handle) t
  rw [hhandle, hstarted, ht]
  exact .start j epoch hidle halone (isRunnable_iff.mpr ⟨hocc, hphase⟩) hnext

theorem Makes.change_reply {α : Type} {ok : α → Reply} {x : Op α}
    (h : Makes x s fun a t => (ok a).outcome t) :
    Change s ((reply ok x s).1.outcome (reply ok x s).2) (reply ok x s).2 := by
  rcases h.cases with ⟨a, t, hx, hc⟩ | ⟨e, t, hx, rfl⟩
  · simpa only [reply, hx] using hc
  · simp only [reply, hx, Reply.outcome]
    exact .refused

/-- **Every call is a `Change`**, with the outcome its reply announces. -/
theorem Call.perform_change (c : Call) (s : State) : Change s (c.outcome s) (c.perform s).2 := by
  cases c with
  | registerInit launch => exact makes_registerInit.change_reply
  | commitChild parent launch =>
    rcases (ensures_commitChild parent launch s).cases with
      ⟨_, _, hx, i, pid, hi, hvalid, hpid, rfl, rfl⟩ | ⟨_, _, hx, nextPid, hdrawn, rfl⟩
    · simpa only [outcome, perform, reply, hx, Reply.outcome] using
        .commit i pid parent launch hi hpid hvalid
    · simpa only [outcome, perform, reply, hx] using .uncommitted nextPid hdrawn
  | publishCurrent handle => exact makes_publishCurrent.change_reply
  | markRunning handle => exact makes_markRunning.change_reply
  | resumeCurrent saved => exact makes_resumeCurrent.change_reply
  | scheduleYield saved => exact makes_scheduleYield.change_reply
  | schedulePreempt saved authority => exact makes_schedulePreempt.change_reply
  | scheduleExit exitCode => exact makes_scheduleExit.change_reply
  | scheduleFromPid0 authority => exact makes_scheduleFromPid0.change_reply
  | markRunnable handle =>
    rcases (makes_markRunnable handle s).cases with ⟨_, _, hx, hc⟩ | ⟨_, _, hx, rfl⟩
    · simpa only [outcome, perform, reply, hx] using hc
    · simpa only [outcome, perform, reply, hx] using .refused
  | markBlocked handle =>
    rcases (makes_markBlocked handle s).cases with ⟨_, _, hx, hc⟩ | ⟨_, _, hx, rfl⟩
    · simpa only [outcome, perform, reply, hx] using hc
    · simpa only [outcome, perform, reply, hx] using .refused
  | reapChild parent handle => exact makes_reapChild.change_reply

/-- What both invariants say of a state. -/
structure Consistent (s : State) : Prop where
  wellFormed : WellFormed s.table
  sole : SoleRunning s

theorem Consistent.new : Consistent .new := ⟨.new, .new⟩

theorem Change.consistent (hc : Change s d t) (h : Consistent s) : Consistent t :=
  ⟨hc.wellFormed h.wellFormed, hc.soleRunning h.wellFormed h.sole⟩

/-- **Both invariants hold after every run.** -/
theorem Consistent.run (h : Consistent s) (calls : List Call) :
    Consistent (Lifecycle.run s calls) :=
  Run.invariant_final (fun s (c : Call) h => (c.perform_change s).consistent h) h

/-- **At most one process is running, the published one**, after every list of calls. -/
theorem sole_running (calls : List Call) : SoleRunning (run .new calls) ∧
    {k | ((run .new calls).table.slots k).isRunning = true}.Subsingleton := by
  have h := Consistent.new.run calls
  exact ⟨h.sole, fun _ hi _ hk => h.sole.unique h.wellFormed hi hk⟩

end Runs

/-- A launch image that validates, for runs on fixed inputs. -/
def sampleLaunch : ProcessLaunch where
  addressSpaceRoot := 0x1000
  entryPoint := 0x2000
  userStackPointer := 0x8000
  kernelStackPointer := 0xffff800000000000
  imageMeasurementRoot := 1
  capabilityRoot := 1
  serviceClass := 0
  priority := 10

end Sisyphus.Lifecycle
