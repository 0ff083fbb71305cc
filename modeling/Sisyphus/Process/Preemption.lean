import Sisyphus.Process.Authority

/-!
# Preemption requests from the timer interrupt

An interrupt handler cannot take the table's lock, for it may have interrupted its owner.  It
reads the two atomics beside the table (the epoch, the identity, the epoch again) and leaves what
it saw in a mailbox (`process/preemption.rs`).  The next system call takes the ticket out and hands
it to `schedule_preempt`, which checks it against the locked table.

`Machine` runs any number of threads through this, one atomic access at a time.  A thread makes a
lifecycle call, is in a system call (`boulder_syscall_dispatch`) or in the interrupt handler.  The
part of a call that holds the lock changes the table in one step, since nobody else can look at
it, but its stores to the atomics are steps of their own (`Store`), and so are the accesses to the
mailbox.  An interrupt that nests in a call is an interleaving of two threads.

What the handler saw may be a mixture: the identity is stored before the epoch.  It does no harm.
An epoch is never used twice, and no slot starts to run without a new one, so that a slot which
runs in some epoch has run since that epoch began (`runningSince`).
-/

set_option autoImplicit false

namespace Sisyphus.Lifecycle

open Fallible List Run

/-! ## Tickets and the mailbox -/

structure PreemptionTicket where
  authority : ExecutionAuthority
  requestedTick : UInt64
  deriving DecidableEq

namespace ExecutionAuthority

def encodeIdentity (a : ExecutionAuthority) : UInt64 := a.handle.encode

def decode (identity schedulerEpoch : UInt64) : Option ExecutionAuthority :=
  if schedulerEpoch == 0 then none
  else
    match ProcessHandle.decode identity with
    | some handle => some ⟨handle, schedulerEpoch⟩
    | none => none

end ExecutionAuthority

inductive MailboxState where
  | empty
  | claimed
  | pending
  deriving DecidableEq

structure Mailbox where
  state : MailboxState
  identity : UInt64
  schedulerEpoch : UInt64
  requestedTick : UInt64

def Mailbox.new : Mailbox := ⟨.empty, 0, 0, 0⟩

/-! ## What is done under the lock -/

/-- The call takes the lock before it looks at anything shared, and keeps it to its end. -/
def Call.isLocked : Call → Bool
  | .publishCurrent _ => false
  | .resumeCurrent _ => false
  | .scheduleYield _ => false
  | .scheduleExit _ => false
  | _ => true

/-- A stretch of code that holds the lock. -/
inductive Section where
  | whole (call : Call) (locked : call.isLocked = true)
  | resume (saved : SavedUserContext) (valid : saved.validate = .ok ()) (current : ProcessHandle)
  | yield (saved : SavedUserContext) (valid : saved.validate = .ok ()) (current : ProcessHandle)
  | exit (exitCode : Int64) (current : ProcessHandle)
  | publishCheck (handle : ProcessHandle)

def Section.perform : Section → State → Reply × State
  | .whole call _ => call.perform
  | .resume saved _ current => reply .scheduled (resumeLocked saved current)
  | .yield saved _ current => reply .scheduled (yieldLocked saved current)
  | .exit exitCode current => reply .decided (exitLocked exitCode current)
  | .publishCheck handle => reply (fun _ => .done) (Lifecycle.publishCheck handle)

/-- The reply of a call that has decided who executes next, or has renewed the user's return. -/
def Reply.decides : Reply → Bool
  | .started _ => true
  | .scheduled _ => true
  | .decided _ => true
  | _ => false

/-- A store to one of the two atomics. -/
inductive Store where
  | identity (word : UInt64)
  | epoch (value : UInt64)

def Store.apply (s : State) : Store → State
  | .identity word => { s with currentExecution := word }
  | .epoch value => { s with currentSchedulerEpoch := value }

/-- The stores a section makes before it drops the lock, in order, if it ends in `t`.  Only
`resume_current` leaves the identity alone. -/
def Section.stores (sec : Section) (t : State) (reply : Reply) : List Store :=
  if reply.decides then
    match sec with
    | .resume _ _ _ => [.epoch t.currentSchedulerEpoch]
    | _ => [.identity t.currentExecution, .epoch t.currentSchedulerEpoch]
  else []

/-! ## Threads -/

/-- A system call, as far as scheduling is concerned. -/
inductive Syscall where
  | yield
  | exit (exitCode : Int64)
  | other (result : UInt64)

/-- A thread's entry from user mode.  A frame that does not validate halts the machine. -/
structure Trap where
  user : SavedUserContext
  valid : user.validate = .ok ()
  number : Syscall

/-- The context the process will resume with. -/
def Trap.saved (trap : Trap) : SavedUserContext :=
  match trap.number with
  | .yield => trap.user.setSyscallResult 0
  | .exit _ => trap.user
  | .other result => trap.user.setSyscallResult result

theorem Trap.validate_saved (trap : Trap) : trap.saved.validate = .ok () := by
  rw [Trap.saved]
  split <;> exact trap.valid

/-- Where a thread is. -/
inductive Thread where
  | idle
  | halted
  /-- The interrupt handler has loaded the epoch. -/
  | irqEpoch (tick before : UInt64)
  /-- It has loaded the identity, which is a user's. -/
  | irqIdentity (tick before : UInt64) (handle : ProcessHandle)
  /-- It has loaded the same epoch again. -/
  | irqMinted (ticket : PreemptionTicket)
  /-- It has claimed the mailbox. -/
  | irqClaimed (ticket : PreemptionTicket)
  | irqStoredIdentity (ticket : PreemptionTicket)
  | irqStoredEpoch (ticket : PreemptionTicket)
  | irqStoredTick (ticket : PreemptionTicket)
  /-- A system call is about to look into the mailbox. -/
  | taking (trap : Trap)
  /-- It has claimed the mailbox. -/
  | takeClaimed (trap : Trap)
  | takeIdentity (trap : Trap) (identity : UInt64)
  | takeEpoch (trap : Trap) (identity epoch : UInt64)
  | takeTick (trap : Trap) (identity epoch tick : UInt64)
  /-- It has a ticket, and wants the lock for `schedule_preempt`. -/
  | preempting (trap : Trap) (ticket : PreemptionTicket)
  /-- It is about to load the identity, for the call it makes without a ticket. -/
  | loading (trap : Trap)
  /-- The thread wants the lock. -/
  | entering (sec : Section) (trap : Option Trap)
  /-- It has the lock, and these stores to make. -/
  | storing (stores : List Store) (next : Thread)
  /-- `publish_current` has dropped the lock and has its store to make. -/
  | publishing (handle : ProcessHandle)

/-- What an idle thread begins. -/
inductive Action where
  | call (call : Call)
  | syscall (user : SavedUserContext) (number : Syscall)
  | timer (tick : UInt64)

/-- What can be seen of a step. -/
inductive Event where
  | silent
  /-- A section was performed. -/
  | ran (reply : Reply)
  /-- `schedule_preempt` was performed for a ticket from the mailbox. -/
  | serviced (ticket : PreemptionTicket) (reply : Reply)
  deriving DecidableEq

/-- The step was a scheduling decision or the renewal of a user return. -/
def Event.decides : Event → Bool
  | .silent => false
  | .ran reply => reply.decides
  | .serviced _ reply => reply.decides

structure Machine (κ : Type) where
  shared : State
  /-- Someone holds the table's lock. -/
  locked : Bool
  mailbox : Mailbox
  thread : κ → Thread

namespace Machine

variable {κ : Type} [DecidableEq κ]

def new : Machine κ := ⟨.new, false, .new, fun _ => .idle⟩

def goto (m : Machine κ) (k : κ) (thread : Thread) : Machine κ :=
  { m with thread := Function.update m.thread k thread }

/-- Performs a section if the lock is free, and spins otherwise. -/
def enter (m : Machine κ) (k : κ) (sec : Section) (next : Reply → Thread) :
    Option Reply × Machine κ :=
  if m.locked then (none, m)
  else
    let result := sec.perform m.shared
    (some result.1, { m with
      shared.table := result.2.table
      locked := true
      thread := Function.update m.thread k
        (.storing (sec.stores result.2 result.1) (next result.1)) })

/-- The first step of a call from kernel code. -/
def startCall (m : Machine κ) (k : κ) (call : Call) : Machine κ :=
  match call with
  | .resumeCurrent saved =>
    match valid : saved.validate, currentUserHandle m.shared with
    | .ok (), .ok current => m.goto k (.entering (.resume saved valid current) none)
    | _, _ => m
  | .scheduleYield saved =>
    match valid : saved.validate, currentUserHandle m.shared with
    | .ok (), .ok current =>
      m.goto k (.entering (.yield (saved.setSyscallResult 0) valid current) none)
    | _, _ => m
  | .scheduleExit exitCode =>
    match currentUserHandle m.shared with
    | .ok current => m.goto k (.entering (.exit exitCode current) none)
    | .error _ => m
  | .publishCurrent handle =>
    if handle.pid == noPid then m else m.goto k (.entering (.publishCheck handle) none)
  | .registerInit launch => m.goto k (.entering (.whole (.registerInit launch) rfl) none)
  | .commitChild parent launch =>
    m.goto k (.entering (.whole (.commitChild parent launch) rfl) none)
  | .markRunning handle => m.goto k (.entering (.whole (.markRunning handle) rfl) none)
  | .schedulePreempt saved authority =>
    m.goto k (.entering (.whole (.schedulePreempt saved authority) rfl) none)
  | .scheduleFromPid0 authority =>
    m.goto k (.entering (.whole (.scheduleFromPid0 authority) rfl) none)
  | .markRunnable handle => m.goto k (.entering (.whole (.markRunnable handle) rfl) none)
  | .markBlocked handle => m.goto k (.entering (.whole (.markBlocked handle) rfl) none)
  | .reapChild parent handle => m.goto k (.entering (.whole (.reapChild parent handle) rfl) none)

/-- The load of the identity in a system call, which halts the machine if it fails. -/
def load (m : Machine κ) (k : κ) (trap : Trap) : Machine κ :=
  match currentUserHandle m.shared with
  | .error _ => m.goto k .halted
  | .ok current =>
    match trap.number with
    | .yield =>
      m.goto k (.entering (.yield (trap.user.setSyscallResult 0) trap.valid current) (some trap))
    | .exit exitCode => m.goto k (.entering (.exit exitCode current) (some trap))
    | .other _ => m.goto k (.entering (.resume trap.saved trap.validate_saved current) (some trap))

/-- A system call looks into the mailbox and leaves it alone unless something is pending. -/
def take (m : Machine κ) (k : κ) (trap : Trap) : Machine κ :=
  match m.mailbox.state with
  | .pending => { m with mailbox.state := .claimed }.goto k (.takeClaimed trap)
  | _ => m.goto k (.loading trap)

/-- What a system call does with what it took: `exit` retires it, the others try it. -/
def taken (trap : Trap) (ticket : Option PreemptionTicket) : Thread :=
  match trap.number, ticket with
  | .exit _, _ => .loading trap
  | _, none => .loading trap
  | _, some ticket => .preempting trap ticket

/-- How a system call goes on after `schedule_preempt`. -/
def afterPreempt (trap : Trap) : Reply → Thread
  | .scheduled _ => .idle
  | .failed .stalePreemptionAuthority => .loading trap
  | _ => .halted

/-- How a thread goes on after any other section. -/
def afterSection (sec : Section) (trap : Option Trap) (reply : Reply) : Thread :=
  match trap, reply with
  | some _, .failed _ => .halted
  -- the idle loop of `SYS_EXIT`
  | some trap, .decided (.pid0 authority) =>
    .entering (.whole (.scheduleFromPid0 authority) rfl) (some trap)
  | none, .done =>
    match sec with
    | .publishCheck handle => .publishing handle
    | _ => .idle
  | _, _ => .idle

/-- Thread `k` makes its next step, or begins `action` if it is idle. -/
def step (m : Machine κ) (next : κ × Action) : Event × Machine κ :=
  let k := next.1
  match m.thread k with
  | .idle =>
    match next.2 with
    | .call call => (.silent, m.startCall k call)
    | .syscall user number =>
      match valid : user.validate with
      | .ok () => (.silent, m.goto k (.taking ⟨user, valid, number⟩))
      | .error _ => (.silent, m.goto k .halted)
    | .timer tick => (.silent, m.goto k (.irqEpoch tick m.shared.currentSchedulerEpoch))
  | .halted => (.silent, m)
  | .irqEpoch tick before =>
    match ProcessHandle.decode m.shared.currentExecution with
    | some handle => (.silent, m.goto k (.irqIdentity tick before handle))
    | none => (.silent, m.goto k .idle)
  | .irqIdentity tick before handle =>
    if before == 0 || before != m.shared.currentSchedulerEpoch then (.silent, m.goto k .idle)
    else (.silent, m.goto k (.irqMinted ⟨⟨handle, before⟩, tick⟩))
  | .irqMinted ticket =>
    match m.mailbox.state with
    | .empty => (.silent, { m with mailbox.state := .claimed }.goto k (.irqClaimed ticket))
    | _ => (.silent, m.goto k .idle)
  | .irqClaimed ticket =>
    (.silent, { m with mailbox.identity := ticket.authority.encodeIdentity }.goto k
      (.irqStoredIdentity ticket))
  | .irqStoredIdentity ticket =>
    (.silent, { m with mailbox.schedulerEpoch := ticket.authority.schedulerEpoch }.goto k
      (.irqStoredEpoch ticket))
  | .irqStoredEpoch ticket =>
    (.silent, { m with mailbox.requestedTick := ticket.requestedTick }.goto k
      (.irqStoredTick ticket))
  | .irqStoredTick _ => (.silent, { m with mailbox.state := .pending }.goto k .idle)
  | .taking trap => (.silent, m.take k trap)
  | .takeClaimed trap => (.silent, m.goto k (.takeIdentity trap m.mailbox.identity))
  | .takeIdentity trap identity =>
    (.silent, m.goto k (.takeEpoch trap identity m.mailbox.schedulerEpoch))
  | .takeEpoch trap identity epoch =>
    (.silent, m.goto k (.takeTick trap identity epoch m.mailbox.requestedTick))
  | .takeTick trap identity epoch tick =>
    (.silent, { m with mailbox.state := .empty }.goto k (taken trap
      ((ExecutionAuthority.decode identity epoch).map fun authority => ⟨authority, tick⟩)))
  | .preempting trap ticket =>
    let (reply, m) := m.enter k (.whole (.schedulePreempt trap.saved ticket.authority) rfl)
      (afterPreempt trap)
    (reply.elim .silent (.serviced ticket), m)
  | .loading trap => (.silent, m.load k trap)
  | .entering sec trap =>
    let (reply, m) := m.enter k sec (afterSection sec trap)
    (reply.elim .silent .ran, m)
  | .storing (store :: rest) thread =>
    (.silent, { m with shared := store.apply m.shared }.goto k (.storing rest thread))
  | .storing [] thread => (.silent, { m with locked := false }.goto k thread)
  | .publishing handle =>
    (.silent, { m with shared.currentExecution := handle.encode }.goto k .idle)

/-- The machine after a schedule. -/
def run (schedule : List (κ × Action)) : Machine κ := Run.final step new schedule

end Machine

/-! ## Sections -/

section Sections

variable {s t : State} {o : Outcome}

theorem Makes.exists_change {α : Type} {ok : α → Reply} {x : Op α} {out : α → State → Outcome}
    (h : Makes x s out) (hok : ∀ a t, (out a t).decides = (ok a).decides) :
    ∃ o, Change s o (reply ok x s).2 ∧ o.decides = (reply ok x s).1.decides := by
  rcases h.cases with ⟨a, t, hx, hc⟩ | ⟨e, t, hx, rfl⟩
  · rw [reply, hx]
    exact ⟨_, hc, hok a t⟩
  · rw [reply, hx]
    exact ⟨_, .refused, rfl⟩

theorem decides_toOutcome (d : ScheduleDecision) : d.toOutcome.decides = true := by
  cases d <;> rfl

/-- Only `mark_running` answers so, and its process is found in the table. -/
theorem Call.decides_started {call : Call} {s t : State} {snapshot : ProcessSnapshot}
    (h : call.perform s = (.started snapshot, t)) :
    (startedReturn t snapshot.handle).decides = true := by
  cases call <;> simp only [perform, reply] at h <;> split at h <;> cases h
  rename_i hx
  obtain ⟨j, epoch, -, -, hj, -, -, rfl, rfl⟩ := ensures_markRunning.of_ok hx
  have hname := (indexByHandle_some hj).2
  exact congrArg Outcome.decides (hname ▸ startedReturn_eq hj)

theorem Call.decides_outcome (call : Call) (s : State) :
    (call.outcome s).decides = (call.perform s).1.decides := by
  unfold outcome
  split
  case h_4 _ answer t _ _ _ h =>
    rw [h]
    cases answer with
    | started snapshot => exact decides_started h
    | decided d => exact decides_toOutcome d
    | _ => rfl
  all_goals
    next h => rw [h]; rfl

/-- **Every section is a `Change` of the sequential registry**, and decides if its reply says so. -/
theorem Section.exists_change (sec : Section) (s : State) :
    ∃ o, Change s o (sec.perform s).2 ∧ o.decides = (sec.perform s).1.decides := by
  cases sec with
  | whole call hlocked => exact ⟨_, call.perform_change s, call.decides_outcome s⟩
  | resume saved valid current => exact (makes_resumeLocked valid).exists_change fun _ _ => rfl
  | yield saved valid current => exact (makes_yieldLocked valid).exists_change fun _ _ => rfl
  | exit exitCode current => exact makes_exitLocked.exists_change fun d _ => decides_toOutcome d
  | publishCheck handle =>
    have hkeep : Makes (Lifecycle.publishCheck handle) s fun _ _ => .keep :=
      ensures_publishCheck.imp_ok (fun _ _ h => h ▸ .refused)
    exact hkeep.exists_change fun _ _ => rfl

end Sections

/-! ## Steps -/

namespace Machine

variable {κ : Type} [DecidableEq κ]

section

variable (m : Machine κ)
include m

@[simp] theorem goto_shared (k : κ) (thread : Thread) : (m.goto k thread).shared = m.shared := rfl

theorem startCall_shared (k : κ) (call : Call) : (m.startCall k call).shared = m.shared := by
  cases call <;> simp only [startCall, goto_shared] <;> split <;> rfl

theorem load_shared (k : κ) (trap : Trap) : (m.load k trap).shared = m.shared := by
  rw [load]
  split
  · rfl
  · split <;> rfl

theorem take_shared (k : κ) (trap : Trap) : (m.take k trap).shared = m.shared := by
  rw [take]
  split <;> rfl

/-- Either the lock is taken, or the section is performed. -/
theorem enter_cases (k : κ) (sec : Section) (next : Reply → Thread) :
    ((m.enter k sec next).1 = none ∧ (m.enter k sec next).2 = m) ∨
      ((m.enter k sec next).1 = some (sec.perform m.shared).1 ∧
        (m.enter k sec next).2.shared.table = (sec.perform m.shared).2.table) := by
  rw [enter]
  split
  · exact .inl ⟨rfl, rfl⟩
  · exact .inr ⟨rfl, rfl⟩

/-- How a step can change the table. -/
inductive Steps (m : Machine κ) : Event → ProcessTable → Prop
  | keep : Steps m .silent m.shared.table
  | ran (sec : Section) : Steps m (.ran (sec.perform m.shared).1) (sec.perform m.shared).2.table
  | serviced (saved : SavedUserContext) (ticket : PreemptionTicket) :
      Steps m (.serviced ticket ((Call.schedulePreempt saved ticket.authority).perform m.shared).1)
        ((Call.schedulePreempt saved ticket.authority).perform m.shared).2.table

/-- **The table changes only by sections.** -/
theorem steps (next : κ × Action) : Steps m (m.step next).1 (m.step next).2.shared.table := by
  have hkeep : ∀ {m' : Machine κ}, m'.shared.table = m.shared.table →
      Steps m .silent m'.shared.table := fun h => h ▸ .keep
  rw [step]
  split
  · split
    · exact hkeep (congrArg State.table (startCall_shared ..))
    · split <;> exact .keep
    · exact .keep
  · exact .keep
  · split <;> exact .keep
  · split <;> exact .keep
  · split <;> exact .keep
  · exact .keep
  · exact .keep
  · exact .keep
  · exact .keep
  · exact hkeep (congrArg State.table (take_shared ..))
  · exact .keep
  · exact .keep
  · exact .keep
  · exact .keep
  · next trap ticket _ =>
    rcases m.enter_cases next.1 (.whole (.schedulePreempt trap.saved ticket.authority) rfl)
      (afterPreempt trap) with ⟨hreply, hm⟩ | ⟨hreply, hm⟩
    · simp only [hreply, hm]
      exact .keep
    · simp only [hreply, hm]
      exact .serviced trap.saved ticket
  · exact hkeep (congrArg State.table (load_shared ..))
  · next sec trap _ =>
    rcases m.enter_cases next.1 sec (afterSection sec trap) with ⟨hreply, hm⟩ | ⟨hreply, hm⟩
    · simp only [hreply, hm]
      exact .keep
    · simp only [hreply, hm]
      exact .ran sec
  · next store rest thread _ => exact hkeep (by cases store <;> rfl)
  · exact .keep
  · exact .keep

end

omit [DecidableEq κ] in
theorem Steps.exists_change {m : Machine κ} {event : Event} {table : ProcessTable}
    (h : Steps m event table) :
    ∃ o t, Change m.shared o t ∧ o.decides = event.decides ∧ t.table = table := by
  cases h with
  | keep => exact ⟨_, _, .refused, rfl, rfl⟩
  | ran sec =>
    obtain ⟨o, hc, hdecides⟩ := sec.exists_change m.shared
    exact ⟨o, _, hc, hdecides, rfl⟩
  | serviced saved ticket =>
    let call := Call.schedulePreempt saved ticket.authority
    exact ⟨_, _, call.perform_change m.shared, call.decides_outcome m.shared, rfl⟩

/-- The epoch goes up with a decision, and only then. -/
theorem epoch_step (m : Machine κ) (next : κ × Action) :
    if (m.step next).1.decides then m.shared.table.schedulerEpoch.toNat <
      (m.step next).2.shared.table.schedulerEpoch.toNat
    else (m.step next).2.shared.table.schedulerEpoch = m.shared.table.schedulerEpoch := by
  obtain ⟨o, t, hc, hdecides, ht⟩ := (m.steps next).exists_change
  rw [← ht, ← hdecides]
  exact hc.epoch

/-- **The table is well formed in every interleaving**: pids are distinct, and each process has a
valid launch image and context. -/
theorem wellFormed_run (schedule : List (κ × Action)) :
    WellFormed (run schedule).shared.table := by
  refine invariant_final (I := fun m : Machine κ => WellFormed m.shared.table) (fun m next h => ?_)
    .new
  obtain ⟨o, t, hc, -, ht⟩ := (m.steps next).exists_change
  exact ht ▸ hc.wellFormed h

/-! ## Since when a process has been running -/

/-- Slot `i` runs the process of the authority, in its epoch. -/
def RunsAs (m : Machine κ) (i : SlotIndex) (authority : ExecutionAuthority) : Prop :=
  (m.shared.table.slots i).isRunning = true ∧
    (m.shared.table.slots i).handle = authority.handle ∧
    m.shared.table.schedulerEpoch = authority.schedulerEpoch

/-- Slot `i` has been running the authority's process since the decision that established the
authority's epoch, with no decision and no renewal after it. -/
def RunningSince (schedule : List (κ × Action)) (i : SlotIndex) (authority : ExecutionAuthority) :
    Prop :=
  ∃ before establishing since, schedule = before ++ establishing :: since ∧
    (run before).shared.table.schedulerEpoch ≠ authority.schedulerEpoch ∧
    ((run before).step establishing).1.decides = true ∧
    Run.EveryStep step (fun m next => (m.step next).1.decides = false)
      (run (before ++ [establishing])) since ∧
    ∀ mid, mid <+: since → (run (before ++ establishing :: mid)).RunsAs i authority

theorem run_append (schedule : List (κ × Action)) (next : κ × Action) :
    run (schedule ++ [next]) = ((run schedule).step next).2 := by
  rw [run, final_append]
  rfl

/-- **A slot that runs has run since the current epoch began**, in every interleaving. -/
theorem runningSince (schedule : List (κ × Action)) (authority : ExecutionAuthority)
    {i : SlotIndex} (h : (run schedule).RunsAs i authority) :
    RunningSince schedule i authority := by
  induction schedule using reverseRecOn with
  | nil =>
    obtain ⟨hi, -⟩ := h
    cases hi
  | append_singleton schedule next ih =>
    rw [run_append] at h
    obtain ⟨hi, hhandle, hepoch⟩ := h
    cases hdecides : ((run schedule).step next).1.decides with
    | true =>
      -- this step established the epoch
      refine ⟨schedule, next, [], rfl, fun he => ?_, hdecides, trivial, fun mid hmid => ?_⟩
      · have := (run schedule).epoch_step next
        rw [if_pos hdecides, he, hepoch] at this
        exact lt_irrefl _ this
      · rw [prefix_nil.mp hmid, run_append]
        exact ⟨hi, hhandle, hepoch⟩
    | false =>
      -- the slot was running before, in the same epoch
      obtain ⟨o, t, hc, ho, ht⟩ := ((run schedule).steps next).exists_change
      have hslot := hc.keep_slot (ho.trans hdecides) (k := i) (ht ▸ hi)
      have hsame := (run schedule).epoch_step next
      rw [ht] at hslot
      rw [if_neg (by simp [hdecides])] at hsame
      have hbefore : (run schedule).RunsAs i authority :=
        ⟨hslot ▸ hi, hslot ▸ hhandle, hsame.symm.trans hepoch⟩
      obtain ⟨before, establishing, since, rfl, hne, hestablishes, hquiet, hsince⟩ := ih hbefore
      have hend : run (before ++ establishing :: since) =
          final step (run (before ++ [establishing])) since := by
        rw [run, run, ← final_append, append_assoc, singleton_append]
      refine ⟨before, establishing, since ++ [next], by simp, hne, hestablishes, ?_, ?_⟩
      · refine everyStep_append.mpr ⟨hquiet, ?_, trivial⟩
        rw [← hend]
        exact hdecides
      · intro mid hmid
        rcases prefix_concat_iff.mp hmid with rfl | hmid
        · rw [← cons_append, ← append_assoc, run_append]
          exact ⟨hi, hhandle, hepoch⟩
        · exact hsince mid hmid

/-! ## Serviced tickets -/

omit [DecidableEq κ] in
theorem schedulePreempt_runsAs {m : Machine κ} {saved : SavedUserContext}
    {authority : ExecutionAuthority} {p : ScheduledProcess} {t : State}
    (h : schedulePreempt saved authority m.shared = .ok p t) : ∃ i, m.RunsAs i authority := by
  simp only [schedulePreempt, bind_validContext_eq_ok, bind_get, bind_refuse_eq_ok,
    bind_runningIndex_eq_ok, Bool.or_eq_false_iff, bne_eq_false_iff_eq] at h
  obtain ⟨-, ⟨-, hepoch⟩, i, hi, hphase, -⟩ := h
  exact ⟨i, isRunning_of_indexByHandle hi hphase, (indexByHandle_some hi).2, hepoch⟩

/-- **A ticket from the mailbox acts only on the execution it was made for.**  In every
interleaving, `schedule_preempt` accepts a ticket only if its process has been running since the
ticket's epoch was established, with nothing decided or renewed in between.  Otherwise it fails,
and the table stays as it is. -/
theorem serviced_runningSince (schedule : List (κ × Action)) (next : κ × Action)
    {ticket : PreemptionTicket} {reply : Reply}
    (h : ((run schedule).step next).1 = .serviced ticket reply) :
    (∃ p i, reply = .scheduled p ∧ RunningSince schedule i ticket.authority) ∨
      ∃ e, reply = .failed e ∧
        ((run schedule).step next).2.shared.table = (run schedule).shared.table := by
  have hstep := (run schedule).steps next
  rw [h] at hstep
  generalize ((run schedule).step next).2.shared.table = table at hstep
  cases hstep with
  | serviced saved =>
    simp only [Call.perform, Lifecycle.reply]
    cases hx : schedulePreempt saved ticket.authority (run schedule).shared with
    | ok p t =>
      obtain ⟨i, hi⟩ := schedulePreempt_runsAs hx
      exact .inl ⟨p, i, rfl, runningSince schedule _ hi⟩
    | error e t =>
      rw [makes_schedulePreempt.of_error hx]
      exact .inr ⟨e, rfl, rfl⟩

/-- Thread `false` starts init, which is interrupted on `true`.  The system call that follows finds
the ticket. -/
def ticketSchedule : List (Bool × Action) :=
  List.replicate 3 (false, .call (.registerInit sampleLaunch)) ++
    List.replicate 5 (false, .call (.markRunning ⟨1, 1⟩)) ++
    List.replicate 8 (true, .timer 7) ++
    List.replicate 6 (false, .syscall (.initial 0x2000 0x8000) (.other 0))

/-- The ticket the interrupt has minted. -/
def sampleTicket : PreemptionTicket := ⟨⟨⟨1, 1⟩, 1⟩, 7⟩

/-- The answer of `schedule_preempt` to the system call of `ticketSchedule`. -/
def sampleReply : Reply :=
  ((Call.schedulePreempt (.initial 0x2000 0x8000) sampleTicket.authority).perform
    (run ticketSchedule).shared).1

theorem sampleTicket_accepted : sampleReply.decides = true ∧
    ∃ i, RunningSince ticketSchedule i sampleTicket.authority := by
  have haccepted : sampleReply.decides = true := by decide +kernel
  have hstep : ((run ticketSchedule).step (false, .timer 0)).1 =
    .serviced sampleTicket sampleReply := by decide +kernel
  rcases serviced_runningSince ticketSchedule _ hstep with ⟨p, i, -, hi⟩ | ⟨e, he, -⟩
  · exact ⟨haccepted, i, hi⟩
  · rw [he] at haccepted
    cases haccepted

end Machine

end Sisyphus.Lifecycle
