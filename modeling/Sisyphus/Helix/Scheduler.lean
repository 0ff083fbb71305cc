import Sisyphus.Helix.Queue

/-!
# Dispatching build jobs

A model of `HelixScheduler` in `helix.rs`.  A dispatch takes the most urgent job from the queue,
notes it in the local deque of the first free agent, and returns it to be built; `complete` takes it
out of the deque again.  So what a deque holds is the job its agent is building.

When the queue is empty, a dispatch steals from the deque of the busiest other agent, and with it
hands out a job that is being built (`stolen_job_dispatched_twice`).  That is avoided when no busy
agent comes after the first free one: towards an agent that comes before it, the source borrows the
two the wrong way round, and the theft finds the empty deque of the free agent.  Together with the
condition on pushes of `Sisyphus.Helix.Queue` this is `Exclusive`, and
`dispatched_at_most_once` is what holds along every run that meets it.
-/

set_option autoImplicit false

namespace Sisyphus.Helix

open List Run

def maxWorkers : Nat := 8
def maxBuildJobs : Nat := 256
def throttleTemp : UInt8 := 85
def criticalTemp : UInt8 := 95

/-! ## The governor -/

structure ThermalGovernor where
  readings : List UInt8
  activeWorkers : Nat
  overrideFocus : Option OptimizationFocus
  throttleEvents : UInt32
  emergencyEvents : UInt32
  currentPeak : UInt8

namespace ThermalGovernor

def new (workers : Nat) : ThermalGovernor where
  readings := List.replicate maxWorkers 0
  activeWorkers := min workers maxWorkers
  overrideFocus := none
  throttleEvents := 0
  emergencyEvents := 0
  currentPeak := 0

def govern (g : ThermalGovernor) : ThermalGovernor :=
  if criticalTemp ≤ g.currentPeak then
    { g with
      activeWorkers := min g.activeWorkers 1
      emergencyEvents := if 1 < g.activeWorkers then g.emergencyEvents + 1 else g.emergencyEvents
      overrideFocus := some .thermalEfficiency }
  else if throttleTemp ≤ g.currentPeak then
    let halved := max (g.activeWorkers / 2) 1
    { g with
      activeWorkers := halved
      throttleEvents := if halved < g.activeWorkers then g.throttleEvents + 1 else g.throttleEvents
      overrideFocus := some .thermalEfficiency }
  else { g with overrideFocus := none }

def update (g : ThermalGovernor) (workerId : Nat) (tempC : UInt8) : ThermalGovernor :=
  let readings := g.readings.set workerId tempC
  govern { g with readings, currentPeak := readings.foldl max 0 }

def effectiveFocus (g : ThermalGovernor) (requested : OptimizationFocus) : OptimizationFocus :=
  g.overrideFocus.getD requested

end ThermalGovernor

/-! ## The scheduler -/

inductive BuildFailure
  | synthesisFailed
  | mutationFailed
  | outputTooSmall
  | throttled
  deriving DecidableEq

inductive JobStatus
  | pending
  | inProgress (workerId : UInt8)
  | done (inode : UInt32)
  | failed (reason : BuildFailure)
  deriving DecidableEq

/-- The agents are numbered from zero; only those below `maxWorkers` exist. -/
structure HelixScheduler where
  queue : WorkQueue
  workers : Nat → WorkerSlot
  governor : ThermalGovernor
  jobStatus : Nat → JobStatus
  jobCount : Nat
  totalBuilt : UInt32

namespace HelixScheduler

def new (workers : Nat) : HelixScheduler where
  queue := .new
  workers i := { WorkerSlot.new (UInt8.ofNat i) with active := decide (i < min workers maxWorkers) }
  governor := .new workers
  jobStatus _ := .pending
  jobCount := 0
  totalBuilt := 0

def enqueue (s : HelixScheduler) (job : BuildJob) : Bool × HelixScheduler :=
  if maxBuildJobs ≤ s.jobCount then (false, s)
  else ((s.queue.push job).1,
    { s with
      jobStatus := Function.update s.jobStatus s.jobCount .pending
      jobCount := s.jobCount + 1
      queue := (s.queue.push job).2 })

/-- The first free agent. -/
def freeWorker (s : HelixScheduler) : Option Nat :=
  (List.range s.governor.activeWorkers).find? fun w =>
    (s.workers w).active && (s.workers w).dequeLen == 0

/-- `max_by_key`: the last of the elements with the greatest key. -/
def maxByKey (key : Nat → Nat) (candidates : List Nat) : Option Nat :=
  candidates.foldl (fun best w =>
    match best with
    | none => some w
    | some b => if key b ≤ key w then some w else some b) none

def setWorker (s : HelixScheduler) (w : Nat) (worker : WorkerSlot) : HelixScheduler :=
  { s with workers := Function.update s.workers w worker }

/-- The busiest agent besides `worker`, and the theft between the two.  When the busiest comes
first, it is the one that steals. -/
def stealFor (s : HelixScheduler) (worker : Nat) : Option BuildJob × HelixScheduler :=
  match maxByKey (fun w => (s.workers w).dequeLen)
      ((List.range s.governor.activeWorkers).filter (· ≠ worker)) with
  | none => (none, s)
  | some busiest =>
    let (thief, victim) := if worker < busiest then (worker, busiest) else (busiest, worker)
    let result := (s.workers thief).stealFrom (s.workers victim)
    (result.1, (s.setWorker thief result.2.1).setWorker victim result.2.2)

/-- The next job for `worker`: from the queue, or stolen. -/
def takeJob (s : HelixScheduler) (worker : Nat) : Option BuildJob × HelixScheduler :=
  match s.queue.popPriority with
  | (some job, queue) => (some job, { s with queue })
  | (none, _) => s.stealFor worker

def dispatch (s : HelixScheduler) : Option (UInt8 × BuildJob) × HelixScheduler :=
  match s.freeWorker with
  | none => (none, s)
  | some worker =>
    match s.takeJob worker with
    | (none, s) => (none, s)
    | (some job, s) =>
      let job := { job with focus := s.governor.effectiveFocus job.focus }
      (some (UInt8.ofNat worker, job),
        s.setWorker worker ((s.workers worker).pushLocal job).2)

def reportThermal (s : HelixScheduler) (workerId : Nat) (tempC : UInt8) : HelixScheduler :=
  let s := if workerId < maxWorkers then
    s.setWorker workerId { s.workers workerId with lastTemp := tempC } else s
  { s with governor := s.governor.update workerId tempC }

/-- Marks a job complete; `none` is the panic on an agent that does not exist. -/
def complete (s : HelixScheduler) (workerId : Nat) (inode : UInt32) : Option HelixScheduler :=
  if maxWorkers ≤ workerId then none
  else
    let worker := (s.workers workerId).popLocal.2
    let s := s.setWorker workerId { worker with jobsDone := worker.jobsDone + 1 }
    let found := (List.range maxBuildJobs).find? fun i =>
      s.jobStatus i == .inProgress (UInt8.ofNat workerId)
    some { s with
      totalBuilt := s.totalBuilt + 1
      jobStatus := found.elim s.jobStatus fun i => Function.update s.jobStatus i (.done inode) }

end HelixScheduler

/-! ## Runs -/

inductive Call
  | enqueue (job : BuildJob)
  | dispatch
  | complete (workerId : Nat) (inode : UInt32)
  | reportThermal (workerId : Nat) (tempC : UInt8)

inductive Outcome
  | enqueued (accepted : Bool)
  | dispatched (assignment : Option (UInt8 × BuildJob))
  | completed
  | reported
  | panicked
  deriving DecidableEq

namespace HelixScheduler

def call (s : HelixScheduler) : Call → Outcome × HelixScheduler
  | .enqueue job => (.enqueued (s.enqueue job).1, (s.enqueue job).2)
  | .dispatch => (.dispatched s.dispatch.1, s.dispatch.2)
  | .complete workerId inode =>
    (if maxWorkers ≤ workerId then .panicked else .completed, (s.complete workerId inode).getD s)
  | .reportThermal workerId tempC => (.reported, s.reportThermal workerId tempC)

/-- A dispatch may override the focus of a job; it is the same job still. -/
def unfocused (job : BuildJob) : BuildJob := { job with focus := .maximumThroughput }

/-- The job that a call enqueued. -/
def enqueuedBy : Call × Outcome → Option BuildJob
  | (.enqueue job, .enqueued true) => some (unfocused job)
  | _ => none

/-- The job that a call dispatched. -/
def dispatchedBy : Call × Outcome → Option BuildJob
  | (_, .dispatched (some (_, job))) => some (unfocused job)
  | _ => none

/-- An enqueue finds the tail where the live slots end, or is refused; a dispatch to a free agent
finds a job in the queue, or no busy agent after the free one. -/
def Exclusive (s : HelixScheduler) : Call → Prop
  | .enqueue _ => maxBuildJobs ≤ s.jobCount ∨ queueCapacity ≤ s.queue.count ∨
    s.queue.tail % queueCapacity = (s.queue.head + s.queue.count) % queueCapacity
  | .dispatch => ∀ w ∈ s.freeWorker, s.queue.count ≠ 0 ∨
    ∀ v < s.governor.activeWorkers, w < v → (s.workers v).dequeLen = 0
  | _ => True

instance (s : HelixScheduler) : (c : Call) → Decidable (s.Exclusive c)
  | .enqueue _ => inferInstanceAs (Decidable (_ ∨ _))
  | .dispatch => inferInstanceAs (Decidable (∀ w ∈ s.freeWorker, _))
  | .complete _ _ => .isTrue trivial
  | .reportThermal _ _ => .isTrue trivial

/-! ## What a dispatch takes -/

variable {s : HelixScheduler} {past : List (Call × Outcome)}

theorem maxByKey_mem {key : Nat → Nat} {candidates : List Nat} {b : Nat}
    (h : maxByKey key candidates = some b) : b ∈ candidates := by
  induction candidates using reverseRecOn generalizing b with
  | nil => cases h
  | append_singleton rest w ih =>
    rw [maxByKey, foldl_append, foldl_cons, foldl_nil, ← maxByKey] at h
    cases hbest : maxByKey key rest with
    | none =>
      rw [hbest] at h
      simp [Option.some.inj h]
    | some best =>
      simp only [hbest] at h
      split at h
      · simp [Option.some.inj h]
      · exact mem_append_left _ (ih (hbest.trans h))

theorem stealFrom_of_empty {thief victim : WorkerSlot} (h : victim.dequeLen = 0) :
    (thief.stealFrom victim).1 = none := by
  simp [WorkerSlot.stealFrom, WorkerSlot.stolenFrom, h]

/-- A theft for the free agent comes to nothing unless a busy agent comes after it. -/
theorem stealFor_eq_none {worker : Nat} (hfree : (s.workers worker).dequeLen = 0)
    (hidle : ∀ v < s.governor.activeWorkers, worker < v → (s.workers v).dequeLen = 0) :
    (s.stealFor worker).1 = none := by
  rw [stealFor]
  split
  · rfl
  · next busiest hbusiest =>
    have hmem := maxByKey_mem hbusiest
    by_cases hlt : worker < busiest
    · simp only [if_pos hlt]
      exact stealFrom_of_empty (hidle busiest (mem_range.mp (mem_filter.mp hmem).1) hlt)
    · simp only [if_neg hlt]
      exact stealFrom_of_empty hfree

/-- What is known of the ring: jobs leave it by priority only, so the head never moves. -/
structure Grounded (q : WorkQueue) : Prop where
  head : q.head = 0
  room : q.count ≤ queueCapacity

/-- A dispatch returns nothing and leaves the queue, or it takes one job out of it. -/
theorem dispatch_cases (hq : Grounded s.queue) (hexclusive : s.Exclusive .dispatch) :
    (s.dispatch.1 = none ∧ s.dispatch.2.queue = s.queue) ∨
    ∃ worker job focus, s.dispatch.1 = some (worker, { job with focus := focus }) ∧
      Grounded s.dispatch.2.queue ∧ (job :: s.dispatch.2.queue.live).Perm s.queue.live := by
  cases hfree : s.freeWorker with
  | none => exact .inl (by simp [dispatch, hfree])
  | some worker =>
    by_cases hempty : s.queue.count = 0
    · have hnone : s.queue.popPriority = (none, s.queue) := by
        rw [WorkQueue.popPriority, if_pos hempty]
      have htake : s.takeJob worker = s.stealFor worker := by rw [takeJob, hnone]
      have hidle := (hexclusive worker hfree).resolve_left (fun h => h hempty)
      have hdeque : (s.workers worker).dequeLen = 0 := by
        have := find?_some hfree
        simp only [Bool.and_eq_true, beq_iff_eq] at this
        exact this.2
      have hsteal := stealFor_eq_none hdeque hidle
      have hqueue : (s.stealFor worker).2.queue = s.queue := by
        rw [stealFor]
        split <;> rfl
      refine .inl ?_
      rw [dispatch, hfree]
      simp only [htake]
      generalize s.stealFor worker = result at hsteal hqueue
      obtain ⟨job, t⟩ := result
      cases hsteal
      exact ⟨rfl, hqueue⟩
    · have hzero : s.queue.slot 0 = 0 := by simp [WorkQueue.slot, hq.head]
      obtain ⟨job, hjob, hperm⟩ := WorkQueue.live_popPriority hq.room hempty
        (.inr ⟨0, Nat.pos_of_ne_zero hempty, hzero⟩)
      have hnext : Grounded s.queue.popPriority.2 := by
        rw [WorkQueue.popPriority, if_neg hempty]
        exact ⟨hq.head, (Nat.sub_le ..).trans hq.room⟩
      refine .inr ?_
      rw [dispatch, hfree]
      simp only [takeJob]
      generalize s.queue.popPriority = result at hjob hperm hnext
      obtain ⟨taken, queue⟩ := result
      cases hjob
      exact ⟨_, job, _, rfl, hnext, hperm⟩

/-- An enqueue that is accepted adds its job to the live ones. -/
theorem enqueue_cases (hq : Grounded s.queue) {job : BuildJob}
    (hexclusive : s.Exclusive (.enqueue job)) :
    ((s.enqueue job).1 = false ∧ (s.enqueue job).2.queue = s.queue) ∨
    ((s.enqueue job).1 = true ∧ Grounded (s.enqueue job).2.queue ∧
      (s.enqueue job).2.queue.live = s.queue.live ++ [job]) := by
  rw [enqueue]
  by_cases hmany : maxBuildJobs ≤ s.jobCount
  · rw [if_pos hmany]
    exact .inl ⟨rfl, rfl⟩
  · rw [if_neg hmany]
    by_cases hfull : queueCapacity ≤ s.queue.count
    · simp [WorkQueue.push_of_full hfull]
    · have htail := (hexclusive.resolve_left hmany).resolve_left hfull
      obtain ⟨haccepted, hlive⟩ := WorkQueue.live_push job (Nat.lt_of_not_le hfull) htail
      refine .inr ⟨haccepted, ?_, hlive⟩
      simp only [WorkQueue.push, if_neg hfull]
      exact ⟨hq.head, Nat.lt_of_not_le hfull⟩

/-! ## At most one dispatch a job -/

/-- The dispatched jobs and the ones in the queue are the enqueued jobs. -/
structure Accounted (past : List (Call × Outcome)) (s : HelixScheduler) : Prop where
  grounded : Grounded s.queue
  balance : (past.filterMap dispatchedBy ++ s.queue.live.map unfocused).Perm
    (past.filterMap enqueuedBy)

theorem Accounted.of_queue {entry : Call × Outcome}
    {t : HelixScheduler} (h : Accounted past s) (hqueue : t.queue = s.queue)
    (hdispatched : dispatchedBy entry = none) (henqueued : enqueuedBy entry = none) :
    Accounted (past ++ [entry]) t where
  grounded := hqueue ▸ h.grounded
  balance := by simpa [hqueue, hdispatched, henqueued] using h.balance

theorem Accounted.call (h : Accounted past s) {c : Call}
    (hexclusive : s.Exclusive c) : Accounted (past ++ [(c, (s.call c).1)]) (s.call c).2 := by
  cases c with
  | enqueue job =>
    obtain ⟨hrefused, hqueue⟩ | ⟨haccepted, hground, hlive⟩ := enqueue_cases h.grounded hexclusive
    · refine h.of_queue hqueue rfl ?_
      simp [HelixScheduler.call, enqueuedBy, hrefused]
    · refine ⟨hground, ?_⟩
      simp only [HelixScheduler.call, hlive, haccepted, filterMap_append, map_append, map_singleton]
      have hnone : [(Call.enqueue job, Outcome.enqueued true)].filterMap dispatchedBy = [] := rfl
      have hold := h.balance.append_right [unfocused job]
      simpa [hnone, enqueuedBy] using hold
  | dispatch =>
    obtain ⟨hnone, hqueue⟩ | ⟨worker, job, focus, hsome, hground, hperm⟩ :=
      dispatch_cases h.grounded hexclusive
    · refine h.of_queue hqueue ?_ rfl
      simp [HelixScheduler.call, dispatchedBy, hnone]
    · refine ⟨hground, ?_⟩
      have hsame : unfocused { job with focus := focus } = unfocused job := rfl
      have htaken := (hperm.map unfocused).append_left (past.filterMap dispatchedBy)
      simp only [HelixScheduler.call, hsome, filterMap_append, filterMap_cons,
        filterMap_nil, dispatchedBy, enqueuedBy, hsame, append_nil, append_assoc,
        singleton_append]
      exact htaken.trans h.balance
  | complete workerId inode =>
    refine h.of_queue ?_ (by simp only [HelixScheduler.call]; split <;> rfl) rfl
    simp only [HelixScheduler.call, complete]
    split <;> rfl
  | reportThermal workerId tempC =>
    refine h.of_queue ?_ rfl rfl
    simp only [HelixScheduler.call, reportThermal]
    split <;> rfl

/-- **One dispatch a job.**  Along every run of exclusive calls, with any number of agents, every
dispatch hands out a different one of the enqueued jobs; so if these are all different, no job is
dispatched twice, before its completion or after it. -/
theorem dispatched_at_most_once (workers : Nat) {calls : List Call}
    (hrun : EveryStep call Exclusive (new workers) calls) :
    let past := trace call (new workers) calls
    (past.filterMap dispatchedBy).Subperm (past.filterMap enqueuedBy) ∧
      ((past.filterMap enqueuedBy).Nodup → (past.filterMap dispatchedBy).Nodup) := by
  have h : Accounted ([] ++ trace call (new workers) calls)
      (final call (new workers) calls) := by
    refine hrun.history [] (fun past s c hexclusive h => h.call hexclusive) ?_
    exact ⟨⟨rfl, Nat.zero_le _⟩, by simp [new, WorkQueue.new, WorkQueue.live]⟩
  have hsub : ((trace call (new workers) calls).filterMap dispatchedBy).Subperm
      ((trace call (new workers) calls).filterMap enqueuedBy) :=
    (List.sublist_append_left ..).subperm.trans h.balance.subperm
  refine ⟨hsub, fun hnodup => ?_⟩
  exact (List.nodup_append.mp (h.balance.nodup_iff.mpr hnodup)).1

/-! ### Runs that keep and break the condition -/

/-- Three jobs for two agents, all enqueued first. -/
def orderlyCalls : List Call :=
  [.enqueue (Agents.sampleJob 1 0), .enqueue (Agents.sampleJob 2 5),
    .enqueue (Agents.sampleJob 3 0), .dispatch, .dispatch, .complete 0 7, .dispatch]

theorem orderly_jobs_dispatched_once :
    let past := trace call (new 2) orderlyCalls
    past.filterMap dispatchedBy =
        [Agents.sampleJob 2 5, Agents.sampleJob 1 0, Agents.sampleJob 3 0] ∧
      (past.filterMap dispatchedBy).Subperm (past.filterMap enqueuedBy) :=
  ⟨by decide +kernel, (dispatched_at_most_once 2 (by decide +kernel)).1⟩

/-- The second job is stolen from the agent that is building it, and dispatched again. -/
theorem stolen_job_dispatched_twice :
    let past := trace call (new 2)
      [.enqueue (Agents.sampleJob 1 5), .enqueue (Agents.sampleJob 2 0), .dispatch, .dispatch,
        .complete 0 7, .dispatch]
    past.map Prod.snd = [.enqueued true, .enqueued true,
      .dispatched (some (0, Agents.sampleJob 1 5)), .dispatched (some (1, Agents.sampleJob 2 0)),
      .completed, .dispatched (some (0, Agents.sampleJob 2 0))] := by
  decide +kernel

end HelixScheduler

end Sisyphus.Helix
