import Sisyphus.Xhci.Submission

/-!
# Consuming events

The event ring over its whole history: the hardware writes the events of a sequence, in ring order
and with the cycle bit of its lap, and stops before it would overwrite one that has not been
consumed.  Everything else may change in any way between the calls, and each read may be refused.
The driver's index and cycle are those of the number of events consumed, so that by
`cellCycle_eq_lapCycle_iff` it takes the next block for an event just when it has been written.

Only the completion of the outstanding command is ever consumed.  An event of another type is
refused by every poll and blocks the ring (`port_event_blocks`).
-/

set_option autoImplicit false

namespace Sisyphus.Xhci

open CycleRing Fallible Function XhciRingMachine

/-- The driver and the ring, with the number of events written and the blocks consumed. -/
structure History where
  machine : XhciRingMachine
  world : World
  written : Nat
  consumed : List RawTrb

namespace History

inductive Action where
  | hardware
  | poll (receipt : XhciNoOpCommandReceipt)
  /-- Whatever leaves the event ring and the driver's place in it alone. -/
  | other (machine : XhciRingMachine) (world : World)

variable {E : Type} (refuses : Nat → Option E) (events : Nat → RawTrb)

/-- The controller is quiet during a call, which has one access. -/
def quiet : Environment E := ⟨fun _ => [], refuses⟩

/-- The block that the driver looks at. -/
def current (t : History) : RawTrb := slot (t.world.page .eventRing) t.machine.eventIndex.toNat

def step (t : History) : Action → History
  | .hardware =>
    if (events t.written).cycle = lapCycle eventCapacity t.written ∧
        t.written < t.consumed.length + eventCapacity then
      { t with
        world.page := update t.world.page .eventRing (Bytes.patch (t.world.page .eventRing)
          (trbBytes * (t.written % eventCapacity)) (events t.written).encode)
        written := t.written + 1 }
    else t
  | .poll receipt =>
    match pollNoOpCompletion (quiet refuses) receipt (t.machine, t.world) with
    | .ok (some _) s => ⟨s.1, s.2, t.written, t.consumed ++ [t.current]⟩
    | .ok none s => ⟨s.1, s.2, t.written, t.consumed⟩
    | .error _ s => ⟨s.1, s.2, t.written, t.consumed⟩
  | .other machine world =>
    { t with
      machine := { machine with
        eventIndex := t.machine.eventIndex, eventCycle := t.machine.eventCycle }
      world := { world with page := update world.page .eventRing (t.world.page .eventRing) } }

/-- A ring that has just been initialised. -/
def start (machine : XhciRingMachine) (world : World) : History where
  machine := { machine with eventIndex := 0, eventCycle := true }
  world := { world with page := update world.page .eventRing fun _ => 0 }
  written := 0
  consumed := []

/-- The driver is where it has consumed to, and the ring has the latest events. -/
structure Inv (t : History) : Prop where
  index : t.machine.eventIndex.toNat = t.consumed.length % eventCapacity
  cycle : t.machine.eventCycle = lapCycle eventCapacity t.consumed.length
  inOrder : t.consumed = (List.range t.consumed.length).map events
  behind : t.consumed.length ≤ t.written
  room : t.written ≤ t.consumed.length + eventCapacity
  cells : ∀ i < eventCapacity,
    (slot (t.world.page .eventRing) i).cycle = cellCycle eventCapacity t.written i
  latest : ∀ k < t.written, t.written ≤ k + eventCapacity →
    slot (t.world.page .eventRing) (k % eventCapacity) = events k

variable {refuses events} {t : History} {machine : XhciRingMachine} {world : World}

theorem inv_start : Inv events (start machine world) where
  index := rfl
  cycle := show true = lapCycle eventCapacity 0 by decide
  inOrder := rfl
  behind := le_rfl
  room := Nat.zero_le _
  cells i _ := by
    rw [cycle_slot]
    simp [start, cycleAt, cellCycle, lapCycle]
  latest k hk := absurd hk (Nat.not_lt_zero k)

section

variable (h : Inv events t)
include h

theorem Inv.hardware : Inv events (t.step refuses events .hardware) := by
  rw [step]
  split
  case isFalse => exact h
  case isTrue hwrite =>
    refine ⟨h.index, h.cycle, h.inOrder, Nat.le_succ_of_le h.behind, hwrite.2, fun i hi => ?_,
      fun k hk hlap => ?_⟩
    · dsimp only
      rw [update_self, slot_patch, cellCycle_succ hi]
      split
      · exact hwrite.1
      · exact h.cells i hi
    · dsimp only at hk hlap ⊢
      rw [update_self, slot_patch]
      rcases Nat.lt_succ_iff_lt_or_eq.mp hk with hlt | rfl
      · -- two places less than a lap apart are different blocks
        rw [if_neg fun heq => ?_]
        · exact h.latest k hlt (by omega)
        · have hdvd := Nat.dvd_of_mod_eq_zero (Nat.sub_mod_eq_zero_of_mod_eq heq.symm)
          have := Nat.eq_zero_of_dvd_of_lt hdvd (by omega)
          omega
      · rw [if_pos rfl]

/-- The block that the driver looks at has its cycle just when the next event is written, and then
is that event. -/
theorem Inv.current_cycle_iff :
    t.current.cycle = t.machine.eventCycle ↔ t.consumed.length < t.written := by
  rw [current, h.index, h.cells _ (Nat.mod_lt _ (by decide)), h.cycle]
  exact cellCycle_eq_lapCycle_iff (by decide) h.behind h.room

theorem Inv.current_eq (hlt : t.consumed.length < t.written) :
    t.current = events t.consumed.length := by
  rw [current, h.index, h.latest _ hlt h.room]

/-- A poll answers nothing, when no further event has been written, and the driver stays where it
is; or it answers with the next event, which completes the command of the receipt, and the driver
moves on by this one event. -/
def Answered (E : Type) (events : Nat → RawTrb) (t : History) (receipt : XhciNoOpCommandReceipt)
    (answer : Option XhciCommandCompletionEvidence) (machine : XhciRingMachine) : Prop :=
  answer = none ∧ machine = t.machine ∧ t.consumed.length = t.written ∨
  ∃ expected event, t.machine.outstanding = some expected ∧
    receiptMatches expected receipt = true ∧
    t.consumed.length < t.written ∧ event = events t.consumed.length ∧ t.current = event ∧
    checkCompletion expected event = (.ok () : Except (XhciRingError E) Unit) ∧
    answer = some (t.machine.complete expected event).1 ∧
    machine = (t.machine.complete expected event).2

/-- A poll with the receipt of the outstanding command whose read is not refused fails for the next
event only. -/
def Rejected (refuses : Nat → Option E) (events : Nat → RawTrb) (t : History)
    (receipt : XhciNoOpCommandReceipt) (e : XhciRingError E) : Prop :=
  ∀ expected, t.machine.outstanding = some expected → receiptMatches expected receipt = true →
    refuses t.world.clock = none → t.consumed.length < t.written ∧
      checkCompletion expected (events t.consumed.length) = .error e

theorem Inv.ensures_poll (receipt : XhciNoOpCommandReceipt) :
    Ensures (pollNoOpCompletion (quiet refuses) receipt) (t.machine, t.world)
      (fun answer s => s.2.page = t.world.page ∧ t.Answered E events receipt answer s.1)
      (fun e s => s.2.page = t.world.page ∧ s.1 = t.machine ∧
        t.Rejected refuses events receipt e) := by
  simp only [pollNoOpCompletion, ensures_rules, ensures_onStorage]
  refine ⟨fun hidle _ h => ?_, fun expected hexpected =>
    ⟨fun hmismatch _ h hmatches => ?_, fun hmatches => ?_⟩⟩
  · cases hidle.symm.trans h
  · cases hexpected.symm.trans h
    simp [hmatches] at hmismatch
  refine ensures_readTrb _ ?_ fun e hrefused => ⟨rfl, fun _ _ _ hread => ?_⟩
  · rw [Nat.mul_comm]
    change Ensures (if t.current.cycle ≠ _ then _ else _) _ _ _
    rw [ensures_ite]
    refine ⟨fun hold => ⟨rfl, .inl ⟨rfl, rfl, ?_⟩⟩, fun hnew => ?_⟩
    · exact h.behind.antisymm (Nat.not_lt.mp (mt h.current_cycle_iff.mpr hold))
    · have hlt := h.current_cycle_iff.mp (not_not.mp hnew)
      have hcurrent := h.current_eq hlt
      simp only [ensures_rules]
      refine ⟨fun e hcheck => ⟨rfl, fun _ h' _ _ => ?_⟩,
        fun _ hcheck => ⟨rfl, .inr ⟨expected, t.current, hexpected, by simpa using hmatches, hlt,
          hcurrent, rfl, hcheck, rfl, rfl⟩⟩⟩
      cases hexpected.symm.trans h'
      exact ⟨hlt, hcurrent ▸ hcheck⟩
  · cases hread.symm.trans hrefused

theorem Inv.kept (hindex : machine.eventIndex = t.machine.eventIndex)
    (hcycle : machine.eventCycle = t.machine.eventCycle)
    (hpage : world.page .eventRing = t.world.page .eventRing) :
    Inv events ⟨machine, world, t.written, t.consumed⟩ :=
  ⟨hindex ▸ h.index, hcycle ▸ h.cycle, h.inOrder, h.behind, h.room, hpage ▸ h.cells,
    hpage ▸ h.latest⟩

theorem Inv.taken (hpage : world.page = t.world.page)
    (hlt : t.consumed.length < t.written) (expected : OutstandingCommand) :
    Inv events ⟨(t.machine.complete expected t.current).2, world, t.written,
      t.consumed ++ [t.current]⟩ := by
  have hlength : (t.consumed ++ [t.current]).length = t.consumed.length + 1 := List.length_append
  have hadvance := advance_eq eventCapacity (by decide) (by decide) h.index
  have hroom := h.room
  rw [← h.cycle] at hadvance
  refine ⟨hlength ▸ hadvance.1, hlength ▸ hadvance.2, ?_, hlength ▸ hlt, ?_, hpage ▸ h.cells,
    hpage ▸ h.latest⟩
  · dsimp only
    rw [hlength, List.range_succ, List.map_append, ← h.inOrder, h.current_eq hlt]
    rfl
  · dsimp only
    omega

theorem Inv.poll (receipt : XhciNoOpCommandReceipt) :
    Inv events (t.step refuses events (.poll receipt)) := by
  rw [step]
  rcases (h.ensures_poll receipt).cases with ⟨answer, s, heq, hpage, hs⟩ | ⟨e, s, heq, hs⟩
  · rw [heq]
    rcases hs with ⟨rfl, hmachine, -⟩ | ⟨expected, _, -, -, hlt, -, rfl, -, rfl, hmachine⟩
    · exact h.kept (by rw [hmachine]) (by rw [hmachine]) (by rw [hpage])
    · dsimp only
      rw [hmachine]
      exact h.taken hpage hlt expected
  · rw [heq]
    exact h.kept (by rw [hs.2.1]) (by rw [hs.2.1]) (by rw [hs.1])

theorem Inv.step (action : Action) : Inv events (t.step refuses events action) := by
  cases action with
  | hardware => exact h.hardware
  | poll receipt => exact h.poll receipt
  | other machine world => exact h.kept rfl rfl (by dsimp only; rw [update_self])

end

/-- What a poll makes of the next event when it brings the receipt of the outstanding command and
its read is not refused. -/
structure Decided (refuses : Nat → Option E) (events : Nat → RawTrb) (t : History)
    (receipt : XhciNoOpCommandReceipt) (expected : OutstandingCommand) (event : RawTrb) : Prop where
  /-- Before the event has been written, the answer is that there is none. -/
  waits : t.consumed.length = t.written → ∃ world,
    pollNoOpCompletion (quiet refuses) receipt (t.machine, t.world) = .ok none (t.machine, world)
  /-- An event that completes the command is reported and consumed. -/
  takes : t.consumed.length < t.written →
    checkCompletion expected event = (.ok () : Except (XhciRingError E) Unit) →
    (∃ world, pollNoOpCompletion (quiet refuses) receipt (t.machine, t.world) =
      .ok (some (t.machine.complete expected event).1)
        ((t.machine.complete expected event).2, world)) ∧
    (t.step refuses events (.poll receipt)).consumed = t.consumed ++ [event]
  /-- Any other event is an error, and remains the next. -/
  rejects : t.consumed.length < t.written → ∀ e : XhciRingError E,
    checkCompletion expected event = .error e →
    (∃ world, pollNoOpCompletion (quiet refuses) receipt (t.machine, t.world) =
      .error e (t.machine, world)) ∧
    (t.step refuses events (.poll receipt)).consumed = t.consumed

theorem Inv.decided (h : Inv events t) {receipt : XhciNoOpCommandReceipt}
    {expected : OutstandingCommand} (hexpected : t.machine.outstanding = some expected)
    (hmatches : receiptMatches expected receipt = true) (hread : refuses t.world.clock = none) :
    Decided refuses events t receipt expected (events t.consumed.length) := by
  rcases (h.ensures_poll receipt).cases with
    ⟨answer, ⟨machine, world⟩, heq, -, ⟨rfl, rfl, hall⟩ |
      ⟨_, _, hexpected', -, hlt, rfl, hcurrent, hcheck, rfl, rfl⟩⟩ |
    ⟨e, ⟨machine, world⟩, heq, -, rfl, hrejected⟩
  · exact ⟨fun _ => ⟨world, heq⟩, fun hlt => absurd hall hlt.ne, fun hlt => absurd hall hlt.ne⟩
  · cases hexpected.symm.trans hexpected'
    refine ⟨fun hall => absurd hall hlt.ne, fun _ _ => ⟨⟨world, heq⟩, ?_⟩, fun _ e he => ?_⟩
    · rw [History.step, heq, hcurrent]
    · cases hcheck.symm.trans he
  · obtain ⟨hlt, hcheck⟩ := hrejected expected hexpected hmatches hread
    refine ⟨fun hall => absurd hall hlt.ne, fun _ hok => ?_, fun _ e' he => ?_⟩
    · cases hcheck.symm.trans hok
    · cases hcheck.symm.trans he
      exact ⟨⟨world, heq⟩, by rw [History.step, heq]⟩

/-- **Events are consumed once and in order.**  After any actions, the blocks consumed are the first
events of the sequence.  A poll with the receipt of the outstanding command decides on the next
event as `Decided` says, unless its read is refused.  Any poll answers as `Answered` says and leaves
the memory alone, or fails and changes neither the memory nor the driver's state. -/
theorem events_consumed_once_in_order (refuses : Nat → Option E) (events : Nat → RawTrb)
    (machine : XhciRingMachine) (world : World) (actions : List Action)
    (receipt : XhciNoOpCommandReceipt) :
    let t := actions.foldl (History.step refuses events) (start machine world)
    t.consumed = (List.range t.consumed.length).map events ∧
    (∀ expected, t.machine.outstanding = some expected → receiptMatches expected receipt = true →
      refuses t.world.clock = none →
        Decided refuses events t receipt expected (events t.consumed.length)) ∧
    Ensures (pollNoOpCompletion (quiet refuses) receipt) (t.machine, t.world)
      (fun answer s => s.2.page = t.world.page ∧ t.Answered E events receipt answer s.1)
      (fun _ s => s.2.page = t.world.page ∧ s.1 = t.machine) := by
  have hinv : Inv events (actions.foldl (History.step refuses events) (start machine world)) :=
    List.foldlRecOn actions _ inv_start fun _ h action _ => h.step action
  exact ⟨hinv.inOrder, fun _ => hinv.decided,
    (hinv.ensures_poll receipt).mono (fun _ _ h => h) fun _ _ h => ⟨h.1, h.2.1⟩⟩

/-! ### Two events -/

/-- A poll leaves an event alone that is not the completion waited for, and so does any number of
them. -/
theorem Inv.consumed_of_rejected (h : Inv events t) (hlt : t.consumed.length < t.written)
    {expected : OutstandingCommand} (hexpected : t.machine.outstanding = some expected)
    {e : XhciRingError E}
    (hcheck : checkCompletion expected (events t.consumed.length) = .error e)
    (receipts : List XhciNoOpCommandReceipt) :
    ((receipts.map Action.poll).foldl (History.step refuses events) t).consumed = t.consumed := by
  induction receipts generalizing t with
  | nil => rfl
  | cons receipt rest ih =>
    have hstep : (t.step refuses events (.poll receipt)).machine = t.machine ∧
        (t.step refuses events (.poll receipt)).written = t.written ∧
        (t.step refuses events (.poll receipt)).consumed = t.consumed := by
      rw [History.step]
      rcases (h.ensures_poll receipt).cases with
        ⟨answer, s, heq, -, ⟨-, -, hall⟩ | ⟨_, _, hexpected', -, -, rfl, -, hok, -⟩⟩ |
        ⟨e', s, heq, hs⟩
      · exact absurd hall hlt.ne
      · cases hexpected.symm.trans hexpected'
        cases hcheck.symm.trans hok
      · rw [heq]
        exact ⟨hs.2.1, rfl, rfl⟩
    obtain ⟨hmachine, hwritten, hconsumed⟩ := hstep
    rw [List.map_cons, List.foldl_cons, ih (h.step _) (by rwa [hconsumed, hwritten])
      (by rwa [hmachine]) (by rwa [hconsumed]), hconsumed]

def sampleCommand : OutstandingCommand := ⟨1, 1, 0, true, 0x1000, 7⟩

def sampleReceipt : XhciNoOpCommandReceipt := ⟨1, 1, 0, true, 0x1000, 7⟩

/-- A driver with this command outstanding. -/
def sampleMachine : XhciRingMachine :=
  ⟨1, 0x1000, 0x2000, 0x3000, 1, true, 0, true, 2, some sampleCommand, 5⟩

def sampleWorld : World := ⟨fun _ => none, fun _ _ => 0, ⟨true, 0x1000, true, [], 0⟩, 0⟩

/-- The hardware reports a change of a port first, and the completion of the command next. -/
def portFirst (k : Nat) : RawTrb :=
  if k = 0 then ⟨0x1000000, 0x1000000, 0x8801⟩ else ⟨0x1000, 0x1000000, 0x8401⟩

/-- The completion alone is consumed by the first poll that finds it. -/
theorem completion_consumed :
    let t := [.hardware].foldl (History.step (fun _ => (none : Option Unit)) fun _ => portFirst 1)
      (start sampleMachine sampleWorld)
    (t.step (fun _ => (none : Option Unit)) (fun _ => portFirst 1) (.poll sampleReceipt)).consumed =
      [portFirst 1] :=
  (((events_consumed_once_in_order (fun _ => none) (fun _ => portFirst 1) sampleMachine sampleWorld
    [.hardware] sampleReceipt).2.1 sampleCommand rfl rfl rfl).takes Nat.zero_lt_one rfl).2

/-- Two events, one of another type and the completion of the outstanding command, are written, and
no polls whatsoever consume the first. -/
theorem port_event_blocks :
    checkCompletion sampleCommand (portFirst 1) = (.ok () : Except (XhciRingError Unit) Unit) ∧
    let step := History.step (fun _ => (none : Option Unit)) portFirst
    let t := [.hardware, .hardware].foldl step (start sampleMachine sampleWorld)
    t.written = 2 ∧ ∀ receipts : List XhciNoOpCommandReceipt,
      ((receipts.map Action.poll).foldl step t).consumed = [] := by
  have hinv : Inv portFirst ([.hardware, .hardware].foldl
      (History.step (fun _ => (none : Option Unit)) portFirst) (start sampleMachine sampleWorld)) :=
    List.foldlRecOn _ _ inv_start fun _ h action _ => h.step action
  have hcheck : checkCompletion sampleCommand (portFirst 0) =
      (.error (.unexpectedEventType 34) : Except (XhciRingError Unit) Unit) := rfl
  exact ⟨rfl, rfl, hinv.consumed_of_rejected Nat.zero_lt_two rfl hcheck⟩

end History

end Sisyphus.Xhci
