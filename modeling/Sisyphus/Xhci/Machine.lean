import Sisyphus.Foundation.Words
import Sisyphus.Xhci.Controller

/-!
# The driver's rings

A model of `xhci_ring.rs`.  The machine has a command ring, whose last block links back to the
first, and an event ring.  It publishes a block in three writes, of which the first hides it, the
second replaces its payload and the third hands it over, and it has one command outstanding at most.
-/

set_option autoImplicit false

namespace Sisyphus.Xhci

open Bytes Fallible

def ringRootDomain : UInt64 := 0x5848434952494e47
def receiptRootDomain : UInt64 := 0x58484349434d4452
def completionRootDomain : UInt64 := 0x584843494556_4e54

inductive XhciRingGeometryError where
  | missingRegion (purpose : XhciDmaPurpose)
  | regionNotReady (purpose : XhciDmaPurpose)
  | regionGenerationMismatch (purpose : XhciDmaPurpose)
  | regionMustBeOnePage (purpose : XhciDmaPurpose)
  | regionAddressUnaligned (purpose : XhciDmaPurpose)
  | regionAddressOverflow (purpose : XhciDmaPurpose)
  | regionsOverlap

inductive XhciRingError (E : Type) where
  | invalidSecret
  | generationMismatch (expected observed : UInt32)
  | geometry (error : XhciRingGeometryError)
  | storage (error : E)
  | commandBusy
  | commandSequenceExhausted
  | noOutstandingCommand
  | receiptMismatch
  | eventPointerReservedBits (bits : UInt8)
  | unexpectedEventType (type : UInt8)
  | completionPointerMismatch (expected observed : UInt64)
  | completionVirtualFunctionMismatch (virtualFunction : UInt8)
  | completionSlotMismatch (slot : UInt8)

structure XhciRingRegisterProgram where
  commandRingControl : UInt64
  eventRingSegmentTableSize : UInt16
  eventRingSegmentTableBase : UInt64
  eventRingDequeuePointer : UInt64

structure XhciNoOpCommandReceipt where
  generation : UInt32
  sequence : UInt32
  commandIndex : UInt16
  producerCycle : Bool
  commandDeviceAddress : UInt64
  receiptRoot : UInt64

structure OutstandingCommand where
  generation : UInt32
  sequence : UInt32
  commandIndex : UInt16
  producerCycle : Bool
  commandDeviceAddress : UInt64
  receiptRoot : UInt64
  deriving DecidableEq

structure XhciCommandCompletionEvidence where
  generation : UInt32
  sequence : UInt32
  completionCode : UInt8
  completionParameter : UInt32
  consumedEventIndex : UInt16
  consumedEventCycle : Bool
  nextEventDequeuePointer : UInt64
  completionRoot : UInt64

structure XhciRingMachine where
  generation : UInt32
  commandDeviceBase : UInt64
  eventDeviceBase : UInt64
  erstDeviceBase : UInt64
  producerIndex : UInt16
  producerCycle : Bool
  eventIndex : UInt16
  eventCycle : Bool
  nextSequence : UInt32
  outstanding : Option OutstandingCommand
  ringRoot : UInt64

/-! ## Roots -/

def canonicalRoot (root domain : UInt64) : UInt64 := if root = 0 then domain else root

def mix (state word : UInt64) : UInt64 := Words.splitMix state word

def receiptRoot (ringRoot : UInt64) (generation sequence : UInt32) (index : UInt16) (cycle : Bool)
    (address : UInt64) : UInt64 :=
  let root := mix (ringRoot ^^^ receiptRootDomain) generation.toUInt64
  let root := mix root sequence.toUInt64
  let root := mix root index.toUInt64
  let root := mix root cycle.toUInt64
  let root := mix root address
  canonicalRoot root receiptRootDomain

def receiptMatches (expected : OutstandingCommand) (receipt : XhciNoOpCommandReceipt) : Bool :=
  expected.generation == receipt.generation &&
  expected.sequence == receipt.sequence &&
  expected.commandIndex == receipt.commandIndex &&
  expected.producerCycle == receipt.producerCycle &&
  expected.commandDeviceAddress == receipt.commandDeviceAddress &&
  expected.receiptRoot == receipt.receiptRoot

/-! ## Storage -/

section Storage

variable {E : Type} (env : Environment E)

abbrev Op (E α : Type) := EStateM (XhciRingError E) World α

/-- `map_err(XhciRingError::Storage)?`. -/
def orStorage {α : Type} (x : EStateM E World α) : Op E α := do
  propagate ((← attempt x).mapError .storage)

def validatedRegion (w : World) (purpose : XhciDmaPurpose) (expectedGeneration : Option UInt32) :
    Except (XhciRingError E) XhciDmaRegionRecord := do
  let some record := w.region purpose | throw (.geometry (.missingRegion purpose))
  if record.phase ≠ .ready then throw (.geometry (.regionNotReady purpose))
  if record.purpose ≠ purpose ∨ expectedGeneration.any (· != record.generation) then
    throw (.geometry (.regionGenerationMismatch purpose))
  if record.pageCount ≠ 1 ∨ record.byteLength.toNat ≠ pageSize then
    throw (.geometry (.regionMustBeOnePage purpose))
  if record.deviceAddressStart.toNat % pageSize ≠ 0 then
    throw (.geometry (.regionAddressUnaligned purpose))
  if record.deviceAddressStart.toNat + pageSize ≥ 2 ^ 64 then
    throw (.geometry (.regionAddressOverflow purpose))
  if record.deviceAddressStart + UInt64.ofNat pageSize ≠ record.deviceAddressEnd then
    throw (.geometry (.regionMustBeOnePage purpose))
  return record

def overlaps (left right : XhciDmaRegionRecord) : Bool :=
  left.deviceAddressStart < right.deviceAddressEnd &&
    right.deviceAddressStart < left.deviceAddressEnd

def zeroRing (purpose : XhciDmaPurpose) : Op E Unit :=
  forM (List.range trbsPerPage) fun index =>
    orStorage (write env purpose (index * trbBytes) RawTrb.zero.encode)

/-- The control word with the cycle bit that does not hand the block over. -/
def invisibleControl (trb : RawTrb) (publishCycle : Bool) : UInt32 :=
  if publishCycle then trb.control &&& ~~~trbCycle else trb.control ||| trbCycle

def publishTrb (purpose : XhciDmaPurpose) (offset : Nat) (trb : RawTrb) (publishCycle : Bool) :
    Op E Unit := do
  orStorage (write env purpose (offset + 12) (leBytes 4 (invisibleControl trb publishCycle).toNat))
  orStorage (write env purpose offset (trb.encode.take 12))
  orStorage (write env purpose (offset + 12) (leBytes 4 trb.control.toNat))

def linkTrb (commandDeviceBase : UInt64) (cycle : Bool) : RawTrb where
  parameter := commandDeviceBase
  status := 0
  control := cycle.toUInt32 ||| linkToggleCycle ||| (trbTypeLink.toUInt32 <<< trbTypeShift)

def writeLink (commandDeviceBase : UInt64) (cycle : Bool) : Op E Unit :=
  publishTrb env .commandRing (commandLinkIndex * trbBytes) (linkTrb commandDeviceBase cycle) cycle

def writeErst (eventDeviceBase : UInt64) : Op E Unit :=
  orStorage (write env .eventRingSegmentTable 0
    (leBytes 8 eventDeviceBase.toNat ++ leBytes 4 eventCapacity ++ leBytes 4 0))

def readTrb (purpose : XhciDmaPurpose) (offset : Nat) : Op E RawTrb :=
  RawTrb.decode <$> orStorage (read env purpose offset trbBytes)

end Storage

/-! ## The machine -/

namespace XhciRingMachine

variable {E : Type} (env : Environment E)

def initializeInner (secret : UInt64) (expectedGeneration : Option UInt32) :
    Op E XhciRingMachine := do
  refuse (secret == 0) .invalidSecret
  let w ← get
  let command ← propagate (validatedRegion w .commandRing none)
  let generation := command.generation
  refuse (expectedGeneration.any (· != generation))
    (.generationMismatch (expectedGeneration.getD generation) generation)
  let event ← propagate (validatedRegion w .eventRing (some generation))
  let erst ← propagate (validatedRegion w .eventRingSegmentTable (some generation))
  refuse (overlaps command event || overlaps command erst || overlaps event erst)
    (.geometry .regionsOverlap)
  zeroRing env .commandRing
  zeroRing env .eventRing
  writeLink env command.deviceAddressStart true
  writeErst env event.deviceAddressStart
  let root := mix (secret ^^^ ringRootDomain) generation.toUInt64
  let root := mix root command.regionRoot
  let root := mix root event.regionRoot
  let root := mix root erst.regionRoot
  let root := mix root command.deviceAddressStart
  let root := mix root event.deviceAddressStart
  let root := mix root erst.deviceAddressStart
  let root := mix root (UInt64.ofNat commandCapacity)
  let root := mix root (UInt64.ofNat eventCapacity)
  return {
    generation
    commandDeviceBase := command.deviceAddressStart
    eventDeviceBase := event.deviceAddressStart
    erstDeviceBase := erst.deviceAddressStart
    producerIndex := 0
    producerCycle := true
    eventIndex := 0
    eventCycle := true
    nextSequence := 1
    outstanding := none
    ringRoot := canonicalRoot root ringRootDomain }

def registerProgram (machine : XhciRingMachine) : XhciRingRegisterProgram where
  commandRingControl := machine.commandDeviceBase ||| trbCycle.toUInt64
  eventRingSegmentTableSize := 1
  eventRingSegmentTableBase := machine.erstDeviceBase
  eventRingDequeuePointer := machine.eventDeviceBase

/-- The machine and the storage that a method works on. -/
abbrev Method (E α : Type) := EStateM (XhciRingError E) (XhciRingMachine × World) α

def onStorage {α : Type} (x : Op E α) : Method E α := do
  propagate (← within Prod.snd (fun world s => (s.1, world)) x)

def noOpTrb (producerCycle : Bool) : RawTrb where
  parameter := 0
  status := 0
  control := producerCycle.toUInt32 ||| (trbTypeNoOpCommand.toUInt32 <<< trbTypeShift)

/-- The index after `index`, with the cycle that goes with it. -/
def advance (capacity : Nat) (index : UInt16) (cycle : Bool) : UInt16 × Bool :=
  if (index + 1).toNat = capacity then (0, !cycle) else (index + 1, cycle)

def submitNoOp : Method E XhciNoOpCommandReceipt := do
  let s ← get
  let machine := s.1
  refuse machine.outstanding.isSome .commandBusy
  refuse (machine.nextSequence == 0xffffffff) .commandSequenceExhausted
  let index := machine.producerIndex.toNat
  (if index + 1 = commandLinkIndex then
    onStorage (writeLink env machine.commandDeviceBase machine.producerCycle)
  else pure ())
  onStorage (publishTrb env .commandRing (index * trbBytes) (noOpTrb machine.producerCycle)
    machine.producerCycle)
  refuse (machine.commandDeviceBase.toNat + index * trbBytes ≥ 2 ^ 64)
    (.geometry (.regionAddressOverflow .commandRing))
  let commandDeviceAddress := machine.commandDeviceBase + UInt64.ofNat (index * trbBytes)
  let sequence := machine.nextSequence
  let outstanding : OutstandingCommand := {
    generation := machine.generation
    sequence
    commandIndex := machine.producerIndex
    producerCycle := machine.producerCycle
    commandDeviceAddress
    receiptRoot := receiptRoot machine.ringRoot machine.generation sequence machine.producerIndex
      machine.producerCycle commandDeviceAddress }
  let next := advance commandLinkIndex machine.producerIndex machine.producerCycle
  modify fun s => ({ s.1 with
    outstanding := some outstanding
    nextSequence := sequence + 1
    producerIndex := next.1
    producerCycle := next.2 }, s.2)
  return {
    generation := outstanding.generation
    sequence := outstanding.sequence
    commandIndex := outstanding.commandIndex
    producerCycle := outstanding.producerCycle
    commandDeviceAddress := outstanding.commandDeviceAddress
    receiptRoot := outstanding.receiptRoot }

/-- The checks of `poll_no_op_completion` on an event that the controller has handed over. -/
def checkCompletion (expected : OutstandingCommand) (event : RawTrb) :
    Except (XhciRingError E) Unit := do
  if event.trbType ≠ trbTypeCommandCompletionEvent then
    throw (.unexpectedEventType event.trbType)
  if event.parameter &&& 0xf ≠ 0 then
    throw (.eventPointerReservedBits (event.parameter &&& 0xf).toUInt8)
  if event.parameter ≠ expected.commandDeviceAddress then
    throw (.completionPointerMismatch expected.commandDeviceAddress event.parameter)
  let virtualFunction := ((event.control >>> 16) &&& 0xff).toUInt8
  if virtualFunction ≠ 0 then throw (.completionVirtualFunctionMismatch virtualFunction)
  let slot := (event.control >>> 24).toUInt8
  if slot ≠ 0 then throw (.completionSlotMismatch slot)

/-- What `poll_no_op_completion` does with an event that passes. -/
def complete (machine : XhciRingMachine) (expected : OutstandingCommand) (event : RawTrb) :
    XhciCommandCompletionEvidence × XhciRingMachine :=
  let next := advance eventCapacity machine.eventIndex machine.eventCycle
  let nextEventDequeuePointer := machine.eventDeviceBase + next.1.toUInt64 * UInt64.ofNat trbBytes
  let root := mix (machine.ringRoot ^^^ completionRootDomain) expected.receiptRoot
  let root := mix root event.parameter
  let root := mix root event.status.toUInt64
  let root := mix root event.control.toUInt64
  let root := mix root machine.eventIndex.toUInt64
  let root := mix root machine.eventCycle.toUInt64
  let root := mix root nextEventDequeuePointer
  ({  generation := machine.generation
      sequence := expected.sequence
      completionCode := (event.status >>> 24).toUInt8
      completionParameter := event.status &&& 0x00ffffff
      consumedEventIndex := machine.eventIndex
      consumedEventCycle := machine.eventCycle
      nextEventDequeuePointer
      completionRoot := canonicalRoot root completionRootDomain },
    { machine with eventIndex := next.1, eventCycle := next.2, outstanding := none })

def pollNoOpCompletion (receipt : XhciNoOpCommandReceipt) :
    Method E (Option XhciCommandCompletionEvidence) := do
  let s ← get
  let machine := s.1
  let expected ← orThrow machine.outstanding .noOutstandingCommand
  refuse (!receiptMatches expected receipt) .receiptMismatch
  let event ← onStorage (readTrb env .eventRing (machine.eventIndex.toNat * trbBytes))
  if event.cycle ≠ machine.eventCycle then return none
  else
    propagate (checkCompletion expected event)
    let completed := machine.complete expected event
    modify fun s => (completed.2, s.2)
    return some completed.1

end XhciRingMachine

/-! ## The system -/

/-- The registers are written and the controller starts. -/
def Controller.start (program : XhciRingRegisterProgram) : Controller where
  running := true
  dequeue := program.commandRingControl &&& ~~~0x3f
  cycle := program.commandRingControl &&& 1 != 0
  observed := []
  reported := 0

/-- The storage, with the machine once it is initialised and all receipts that it handed out. -/
structure System where
  world : World
  machine : Option XhciRingMachine
  receipts : List XhciNoOpCommandReceipt

namespace System

variable {E : Type} (env : Environment E)

inductive Action where
  | initializeInner (secret : UInt64) (expectedGeneration : Option UInt32)
  | submitNoOp
  | pollNoOpCompletion (receipt : XhciNoOpCommandReceipt)
  | controller (step : Step)

inductive Answer where
  | receipt (receipt : XhciNoOpCommandReceipt)
  | evidence (evidence : Option XhciCommandCompletionEvidence)
  | none

/-- The storage that the arena hands to the driver, with the controller off. -/
def boot (region : XhciDmaPurpose → Option XhciDmaRegionRecord) (page : XhciDmaPurpose → Page) :
    System where
  world :=
    { region, page, clock := 0
      controller :=
        { running := false, dequeue := 0, cycle := false, observed := [], reported := 0 } }
  machine := none
  receipts := []

/-- A method of the machine, once there is one. -/
def onMachine {α : Type} (s : System) (x : XhciRingMachine.Method E α) (answer : α → Answer) :
    Except (XhciRingError E) Answer × System :=
  match s.machine with
  | none => (.ok .none, s)
  | some machine =>
    match x (machine, s.world) with
    | .ok a (machine, world) => (.ok (answer a), { s with machine := some machine, world })
    | .error e (machine, world) => (.error e, { s with machine := some machine, world })

/-- Files the receipt that was handed out. -/
def file : Except (XhciRingError E) Answer × System → Except (XhciRingError E) Answer × System
  | (.ok (.receipt receipt), s) =>
    (.ok (.receipt receipt), { s with receipts := s.receipts ++ [receipt] })
  | other => other

/-- One call of the driver, or one step of the controller between two calls.  The machine is
initialised once, and tried again if that fails. -/
def perform (s : System) : Action → Except (XhciRingError E) Answer × System
  | .initializeInner secret expectedGeneration =>
    if s.machine.isSome then (.ok .none, s)
    else
      match XhciRingMachine.initializeInner env secret expectedGeneration s.world with
      | .ok machine world =>
        (.ok .none, { s with
          machine := some machine
          world := { world with controller := .start machine.registerProgram } })
      | .error e world => (.error e, { s with world })
  | .submitNoOp => file (s.onMachine (XhciRingMachine.submitNoOp env) .receipt)
  | .pollNoOpCompletion receipt =>
    s.onMachine (XhciRingMachine.pollNoOpCompletion env receipt) .evidence
  | .controller step => (.ok .none, { s with world := s.world.step step })

end System

end Sisyphus.Xhci
