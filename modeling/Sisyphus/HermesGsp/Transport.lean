import Sisyphus.Slope.Service
import Sisyphus.Foundation.Run

/-!
# The Hermes transport

A model of the online part of `hermes_gsp.rs`: `submit` sends a command to the device and remembers
it as pending, `pollEvent` takes an event from the device and settles the request it replies to, and
`expireOne` gives up a request whose deadline has passed.  Before that, `ignite` has negotiated the
protocol with one command of its own.

What the device and the platform do is a sequence of answers, one for each call of the platform
(`Platform`), so that registers and events have arbitrary contents and calls fail at any point.  The
platform keeps a record of what was asked of it.  The codec is a parameter.

The profile is what `bind` has validated, and the lease what `stage` has allocated.  Neither is used
up by the calls here.
-/

set_option autoImplicit false

namespace Sisyphus.HermesGsp

open Fallible Function Slope Words

def hermesOpcodeNegotiate : UInt32 := 1
def hermesEventReply : UInt32 := 1
def hermesEventAsync : UInt32 := 2
def hermesEventFault : UInt32 := 3
def hermesMaxNormalizedPayload : Nat := 192
def maximumBars : Nat := 6

inductive HermesFault
  | notNvidia
  | notDisplayController
  | noPersonality
  | ambiguousPersonality
  | personalityCapacity
  | personalityRejected
  | compatibilityRejected
  | profileRejected
  | codecRejected
  | firmwareMissing
  | firmwareUnexpected
  | firmwareSize
  | firmwareAlignment
  | firmwareRejected
  | deviceIsolation
  | barUnavailable
  | mmioOutOfRange
  | mmioRead
  | mmioWrite
  | unstableMmio
  | dmaAllocation
  | dmaAccess
  | dmaAddressOverflow
  | queueGeometry
  | queueFull
  | queueCorrupt
  | serviceCurveRejected
  | serviceBacklogSaturated
  | serviceArrivalEnvelopeExceeded
  | serviceDeadlineUnsafe
  | serviceTimeRegression
  | serviceReservationCorrupt
  | pendingCapacity
  | duplicateRequest
  | unknownResponse
  | responseMismatch
  | responseExpired
  | protocolMismatch
  | requiredFeatureMissing
  | bootFuelExhausted
  | bootInstructionRejected
  | deadlineExpired
  | deviceFault
  | recoveryRequired
  | correlationSpaceExhausted
  | arithmeticOverflow
  deriving DecidableEq

def mapAdmissionFault : AdmissionFault → HermesFault
  | .invalidCurve | .arithmeticOverflow => .serviceCurveRejected
  | .backlogSaturated => .serviceBacklogSaturated
  | .arrivalEnvelopeExceeded => .serviceArrivalEnvelopeExceeded
  | .deadlineUnsafe => .serviceDeadlineUnsafe
  | .timeRegression => .serviceTimeRegression
  | .staleReservation | .corruptObservation => .serviceReservationCorrupt

/-- Ticks are compared on a circle: the deadline is reached for half of it. -/
def tickReached (now deadline : UInt64) : Bool := now - deadline < 0x8000000000000000

/-! ## The platform -/

structure MmioWindow where
  handle : Nat
  bar : UInt8
  length : UInt64

structure DmaRegion where
  handle : Nat
  deviceAddress : UInt64
  length : Nat

/-- A call of the platform that can fail. -/
inductive Access
  | read32 (window : MmioWindow) (offset : UInt32)
  | write32 (window : MmioWindow) (offset value : UInt32)
  | ioFence
  | dmaWrite (region : DmaRegion) (offset : Nat) (bytes : List UInt8)
  | dmaRead (region : DmaRegion) (offset length : Nat)
  | dmaPublish (region : DmaRegion) (offset length : Nat)
  | dmaAcquire (region : DmaRegion) (offset length : Nat)

/-- What the platform says to one call. -/
structure Answer where
  fault : Option HermesFault
  word : UInt32
  bytes : List UInt8
  tick : UInt64

/-- The answers to come, the calls so far with their success, the latest first, and what the clock
has said last. -/
structure Platform where
  answers : Nat → Answer
  log : List (Access × Bool)
  clock : UInt64

namespace Platform

def ask {α : Type} (access : Access) (value : Answer → α) : EStateM HermesFault Platform α :=
  fun p =>
    let asked : Platform :=
      { p with
        answers := fun k => p.answers (k + 1)
        log := (access, (p.answers 0).fault.isNone) :: p.log }
    match (p.answers 0).fault with
    | none => .ok (value (p.answers 0)) asked
    | some fault => .error fault asked

def nowTick : EStateM HermesFault Platform UInt64 := fun p =>
  .ok (p.answers 0).tick
    { p with answers := fun k => p.answers (k + 1), clock := (p.answers 0).tick }

def read32 (window : MmioWindow) (offset : UInt32) : EStateM HermesFault Platform UInt32 :=
  ask (.read32 window offset) Answer.word

def write32 (window : MmioWindow) (offset value : UInt32) : EStateM HermesFault Platform Unit :=
  ask (.write32 window offset value) fun _ => ()

def ioFence : EStateM HermesFault Platform Unit := ask .ioFence fun _ => ()

def dmaWrite (region : DmaRegion) (offset : Nat) (bytes : List UInt8) :
    EStateM HermesFault Platform Unit :=
  ask (.dmaWrite region offset bytes) fun _ => ()

def dmaRead (region : DmaRegion) (offset length : Nat) :
    EStateM HermesFault Platform (List UInt8) :=
  ask (.dmaRead region offset length) fun answer =>
    (answer.bytes ++ List.replicate length 0).take length

def dmaPublish (region : DmaRegion) (offset length : Nat) : EStateM HermesFault Platform Unit :=
  ask (.dmaPublish region offset length) fun _ => ()

def dmaAcquire (region : DmaRegion) (offset length : Nat) : EStateM HermesFault Platform Unit :=
  ask (.dmaAcquire region offset length) fun _ => ()

end Platform

/-! ## Commands, events and the codec -/

structure HermesNormalizedCommand where
  commandVersion : UInt32
  structSize : UInt32
  epoch : UInt32
  sequence : UInt32
  opcode : UInt32
  flags : UInt32
  object : UInt64
  deadlineTick : UInt64
  arguments : Vector UInt64 8
  payloadLength : UInt16
  payload : List UInt8

/-- `HermesNormalizedCommand::empty`. -/
def HermesNormalizedCommand.empty : HermesNormalizedCommand :=
  ⟨1, 304, 0, 0, 0, 0, 0, 0, Vector.replicate 8 0, 0, List.replicate hermesMaxNormalizedPayload 0⟩

structure HermesNormalizedEvent where
  eventVersion : UInt32
  structSize : UInt32
  epoch : UInt32
  sequence : UInt32
  correlationEpoch : UInt32
  correlationSequence : UInt32
  eventKind : UInt32
  opcode : UInt32
  status : Int32
  flags : UInt32
  object : UInt64
  arguments : Vector UInt64 8
  payloadLength : UInt16
  payload : List UInt8

/-- `size_of::<HermesNormalizedEvent>()`. -/
def sizeOfEvent : Nat := 312

structure HermesTransportProfile where
  wireMajor : UInt16
  wireMinorMinimum : UInt16
  wireMinorMaximum : UInt16
  commandSlotBytes : UInt16
  eventSlotBytes : UInt16
  commandDepth : UInt16
  eventDepth : UInt16
  controlBar : UInt8
  doorbellBar : UInt8
  commandProducerOffset : UInt32
  commandConsumerOffset : UInt32
  eventProducerOffset : UInt32
  eventConsumerOffset : UInt32
  commandDoorbellOffset : UInt32
  eventDoorbellOffset : UInt32
  requiredFeatures : UInt64
  optionalFeatures : UInt64
  maximumWireBytes : UInt32
  minimumCompletionsPerWindow : UInt16
  maximumAdmissionsPerWindow : UInt16
  maximumAdmissionBacklog : UInt16
  serviceWindowTicks : UInt64
  serviceLatencyTicks : UInt64

/-- The two methods of `HermesCodec` that an online transport calls.  An encoder fills a buffer of
the given length and says how much of it counts. -/
structure HermesCodec where
  encodeCommand : HermesTransportProfile → HermesNormalizedCommand → Nat →
    Except HermesFault (Nat × List UInt8)
  decodeEvent : HermesTransportProfile → List UInt8 → Except HermesFault HermesNormalizedEvent

/-! ## Pending requests -/

/-- What identifies a request. -/
abbrev Identity := UInt32 × UInt32

structure PendingRequest where
  epoch : UInt32
  sequence : UInt32
  opcode : UInt32
  deadlineTick : UInt64
  admission : AdmissionCertificate

def PendingRequest.identity (request : PendingRequest) : Identity :=
  (request.epoch, request.sequence)

/-- An entry that is not live is `none`. -/
abbrev PendingTable (n : Nat) := Fin n → Option PendingRequest

namespace PendingTable

variable {n : Nat}

/-- The first entry that satisfies a test. -/
def find (table : PendingTable n) (test : Option PendingRequest → Bool) : Option (Fin n) :=
  (List.finRange n).find? fun i => test (table i)

def insert (table : PendingTable n) (request : PendingRequest) :
    Except HermesFault (PendingTable n) := do
  reject ((table.find fun entry => entry.any fun live => live.identity == request.identity).isSome)
    .duplicateRequest
  let slot ← okOr (table.find fun entry => entry.isNone) .pendingCapacity
  pure (update table slot (some request))

def cancel (table : PendingTable n) (identity : Identity) : PendingTable n :=
  match table.find fun entry => entry.any fun live => live.identity == identity with
  | some slot => update table slot none
  | none => table

/-- Takes the first request that satisfies a test out of the table. -/
def takeFirst (table : PendingTable n) (test : PendingRequest → Bool) :
    Option (PendingRequest × PendingTable n) := do
  let slot ← table.find fun entry => entry.any test
  let request ← table slot
  pure (request, update table slot none)

def takeResponse (table : PendingTable n) (event : HermesNormalizedEvent) :
    Except HermesFault (PendingRequest × PendingTable n) :=
  okOr (table.takeFirst fun live =>
    live.epoch == event.correlationEpoch && live.sequence == event.correlationSequence)
    .unknownResponse

def liveCount (table : PendingTable n) : Nat :=
  ((List.finRange n).filter fun i => (table i).isSome).length

def expireOne (table : PendingTable n) (nowTick : UInt64) :
    Option (PendingRequest × PendingTable n) :=
  table.takeFirst fun live => tickReached nowTick live.deadlineTick

end PendingTable

/-! ## The transport -/

structure Runtime (n : Nat) where
  epoch : UInt32
  nextSequence : UInt32
  commandProducer : UInt32
  eventConsumer : UInt32
  negotiatedFeatures : UInt64
  poisoned : Bool
  pending : PendingTable n
  service : ServiceController 32
  lastAdmission : Option AdmissionCertificate

structure HermesPciIdentity where
  bus : UInt8
  slot : UInt8
  function : UInt8
  deviceId : UInt16

def Runtime.new (n : Nat) (identity : HermesPciIdentity) (profile : HermesTransportProfile)
    (nowTick serviceSecret : UInt64) : Except HermesFault (Runtime n) := do
  let location := (identity.bus.toUInt32 <<< 16) ||| (identity.slot.toUInt32 <<< 8) |||
    identity.function.toUInt32
  let epoch := nowTick.toUInt32 ^^^ (nowTick >>> 32).toUInt32 ^^^ location ^^^
    (identity.deviceId.toUInt32 <<< 1) ^^^ 0x4845524d
  let epoch := if epoch = 0 then 1 else epoch
  let service ← (ServiceController.new 32
    { minimumCompletionsPerWindow := profile.minimumCompletionsPerWindow
      maximumAdmissionsPerWindow := profile.maximumAdmissionsPerWindow
      windowTicks := profile.serviceWindowTicks
      latencyTicks := profile.serviceLatencyTicks
      maximumBacklog := profile.maximumAdmissionBacklog } nowTick serviceSecret).mapError
    fun _ => HermesFault.serviceCurveRejected
  pure { epoch, nextSequence := 1, commandProducer := 0, eventConsumer := 0, negotiatedFeatures :=
         0, poisoned := false, pending := fun _ => none, service, lastAdmission := none }

structure HermesLease where
  bars : Vector (Option MmioWindow) maximumBars
  commandRing : Option DmaRegion
  eventRing : Option DmaRegion

def HermesLease.bar (lease : HermesLease) (index : UInt8) : Except HermesFault MmioWindow :=
  okOr lease.bars[index.toNat]?.join .barUnavailable

structure Hermes (n : Nat) where
  codec : HermesCodec
  profile : HermesTransportProfile
  lease : HermesLease
  runtime : Runtime n
  platform : Platform

namespace Hermes

variable {n : Nat}

abbrev Act (n : Nat) := EStateM HermesFault (Hermes n)

def onPlatform {α : Type} (x : EStateM HermesFault Platform α) : Act n α := do
  propagate (← within Hermes.platform (fun platform t => { t with platform }) x)

/-- A call of the admission controller, with its errors translated. -/
def onService {α : Type} (translate : AdmissionFault → HermesFault)
    (x : EStateM AdmissionFault (ServiceController 32) α) : Act n α := do
  match ← within (fun t : Hermes n => t.runtime.service)
      (fun service t => { t with runtime := { t.runtime with service } }) x with
  | .ok a => pure a
  | .error fault => throw (translate fault)

def setPending (pending : PendingTable n) : Act n Unit :=
  modify fun t => { t with runtime := { t.runtime with pending } }

def poison {α : Type} (error : HermesFault) : Act n α := do
  modify fun t => { t with runtime := { t.runtime with poisoned := true } }
  throw error

/-- `if let Err(error) = x { return self.poison(error) }`. -/
def orPoison {α : Type} (x : Act n α) : Act n α := do
  match ← attempt x with
  | .ok a => pure a
  | .error error => poison error

def allocateCorrelation : Act n Identity := do
  let t ← get
  refuse (t.runtime.epoch == 0 || t.runtime.nextSequence == 0) .correlationSpaceExhausted
  let correlation := (t.runtime.epoch, t.runtime.nextSequence)
  if t.runtime.nextSequence = 0xffffffff then
    if t.runtime.epoch = 0xffffffff then
      set { t with runtime := { t.runtime with nextSequence := 0 } }
    else
      set { t with runtime := { t.runtime with epoch := t.runtime.epoch + 1, nextSequence := 1 } }
  else
    set { t with runtime := { t.runtime with nextSequence := t.runtime.nextSequence + 1 } }
  pure correlation

/-! ### Registers and rings -/

def validateMmioAccess (window : MmioWindow) (offset : UInt32) (width : UInt64) :
    Except HermesFault Unit :=
  reject (offset &&& 3 != 0 || (checkedAdd offset.toUInt64 width).all fun last =>
    window.length < last) .mmioOutOfRange

def read32 (bar : UInt8) (offset : UInt32) : Act n UInt32 := do
  let window ← propagate ((← get).lease.bar bar)
  propagate (validateMmioAccess window offset 4)
  onPlatform (Platform.read32 window offset)

def write32 (bar : UInt8) (offset value : UInt32) : Act n Unit := do
  let window ← propagate ((← get).lease.bar bar)
  propagate (validateMmioAccess window offset 4)
  onPlatform (Platform.write32 window offset value)

/-- Where the entry with this number starts in a ring. -/
def ringOffset (index : UInt32) (depth : UInt16) (slotBytes : Nat) : Except HermesFault Nat :=
  let offset := (index &&& (depth.toUInt32 - 1)).toNat * slotBytes
  okOr (if offset < 2 ^ 64 then some offset else none) .arithmeticOverflow

def sendWire (command : HermesNormalizedCommand) : Act n Unit := do
  let t ← get
  let profile := t.profile
  let depth := profile.commandDepth.toUInt32
  let slotBytes := profile.commandSlotBytes.toNat
  let consumer ← read32 profile.controlBar profile.commandConsumerOffset
  let producer := t.runtime.commandProducer
  let outstanding := producer - consumer
  if depth < outstanding then poison .queueCorrupt
  refuse (outstanding == depth) .queueFull
  let (encoded, wire) ← propagate (t.codec.encodeCommand profile command slotBytes)
  refuse (encoded == 0 || decide (slotBytes < encoded) ||
    decide (profile.maximumWireBytes.toNat < encoded)) .codecRejected
  let ring ← orThrow t.lease.commandRing .dmaAccess
  let offset ← propagate (ringOffset producer profile.commandDepth slotBytes)
  onPlatform (Platform.dmaWrite ring offset ((wire ++ List.replicate slotBytes 0).take slotBytes))
  orPoison (onPlatform (Platform.dmaPublish ring offset slotBytes))
  orPoison (onPlatform Platform.ioFence)
  orPoison (write32 profile.controlBar profile.commandProducerOffset (producer + 1))
  orPoison (write32 profile.doorbellBar profile.commandDoorbellOffset (producer + 1))
  orPoison (onPlatform Platform.ioFence)
  modify fun t => { t with runtime := { t.runtime with commandProducer := producer + 1 } }

def readWireEvent : Act n (Option HermesNormalizedEvent) := do
  let t ← get
  let profile := t.profile
  let producer ← read32 profile.controlBar profile.eventProducerOffset
  let depth := profile.eventDepth.toUInt32
  let consumer := t.runtime.eventConsumer
  let available := producer - consumer
  if depth < available then poison .queueCorrupt
  if available = 0 then
    pure none
  else do
    let slotBytes := profile.eventSlotBytes.toNat
    let offset ← propagate (ringOffset consumer profile.eventDepth slotBytes)
    let ring ← orThrow t.lease.eventRing .dmaAccess
    onPlatform (Platform.dmaAcquire ring offset slotBytes)
    let wire ← onPlatform (Platform.dmaRead ring offset slotBytes)
    let event ← orPoison (propagate (t.codec.decodeEvent profile wire))
    if event.structSize.toNat < sizeOfEvent ∨
        hermesMaxNormalizedPayload < event.payloadLength.toNat ∨ event.epoch ≠ t.runtime.epoch then
      poison .protocolMismatch
    orPoison (write32 profile.controlBar profile.eventConsumerOffset (consumer + 1))
    orPoison (write32 profile.doorbellBar profile.eventDoorbellOffset (consumer + 1))
    orPoison (onPlatform Platform.ioFence)
    modify fun t => { t with runtime := { t.runtime with eventConsumer := consumer + 1 } }
    pure (some event)

/-! ### Coming online -/

/-- The end of `bind`, when the personality is chosen and its profile is valid, with the lease and
the platform that `stage` leaves. -/
def bind (n : Nat) (codec : HermesCodec) (profile : HermesTransportProfile)
    (identity : HermesPciIdentity) (proofRoot nowTick : UInt64) (lease : HermesLease)
    (platform : Platform) : Except HermesFault (Hermes n) := do
  reject (n == 0 || decide (n < profile.maximumAdmissionBacklog.toNat)) .serviceCurveRejected
  let runtime ← Runtime.new n identity profile nowTick proofRoot
  pure { codec, profile, lease, runtime, platform }

/-- The wait for the reply of `ignite`, for so many turns. -/
def awaitEvent (deadlineTick : UInt64) : Nat → Act n HermesNormalizedEvent
  | 0 => throw .deadlineExpired
  | turns + 1 => do
    refuse (tickReached (← onPlatform Platform.nowTick) deadlineTick) .deadlineExpired
    match ← readWireEvent with
    | some event => pure event
    | none => awaitEvent deadlineTick turns

/-- The end of `ignite`: the boot instructions, which only the platform and the device see, have
been executed. -/
def ignite (turns : Nat) (deadlineTick : UInt64) : Act n Unit := do
  let profile := (← get).profile
  let (epoch, sequence) ← allocateCorrelation
  sendWire { HermesNormalizedCommand.empty with
    epoch
    sequence
    opcode := hermesOpcodeNegotiate
    deadlineTick
    arguments := ((Vector.replicate 8 0).set 0 (profile.requiredFeatures |||
      profile.optionalFeatures)).set 1 ((profile.wireMajor.toUInt64 <<< 32) |||
      (profile.wireMinorMinimum.toUInt64 <<< 16) ||| profile.wireMinorMaximum.toUInt64) }
  let event ← awaitEvent deadlineTick turns
  refuse (event.eventKind == hermesEventFault) .deviceFault
  refuse (event.eventKind != hermesEventReply || event.correlationEpoch != epoch ||
    event.correlationSequence != sequence || event.opcode != hermesOpcodeNegotiate ||
    event.status != 0) .protocolMismatch
  let negotiatedFeatures := event.arguments[0]
  let negotiatedWire := event.arguments[1]
  let negotiatedMajor := (negotiatedWire >>> 32).toUInt16
  let negotiatedMinor := negotiatedWire.toUInt16
  refuse (negotiatedMajor != profile.wireMajor || decide (negotiatedMinor <
    profile.wireMinorMinimum) ||
    decide (profile.wireMinorMaximum < negotiatedMinor)) .protocolMismatch
  refuse (negotiatedFeatures &&& profile.requiredFeatures != profile.requiredFeatures)
    .requiredFeatureMissing
  modify fun t => { t with runtime := { t.runtime with negotiatedFeatures } }

/-! ### Calls -/

/-- The arguments of `submit`. -/
structure Submission where
  opcode : UInt32
  flags : UInt32
  object : UInt64
  arguments : Vector UInt64 8
  payload : List UInt8
  deadlineTick : UInt64

/-- The command that carries a submission. -/
def Submission.command (s : Submission) (identity : Identity) : HermesNormalizedCommand :=
  { HermesNormalizedCommand.empty with
    epoch := identity.1
    sequence := identity.2
    opcode := s.opcode
    flags := s.flags
    object := s.object
    deadlineTick := s.deadlineTick
    arguments := s.arguments
    payloadLength := UInt16.ofNat s.payload.length
    payload := s.payload ++ List.replicate (hermesMaxNormalizedPayload - s.payload.length) 0 }

/-- `service.rollback(admission).map_err(..)?; return Err(error)`. -/
def rollBack {α : Type} (admission : AdmissionCertificate) (error : HermesFault) : Act n α := do
  onService (fun _ => .serviceReservationCorrupt) (ServiceController.rollback admission)
  throw error

def submit (s : Submission) : Act n Identity := do
  refuse (← get).runtime.poisoned .recoveryRequired
  refuse (s.opcode == 0 || decide (hermesMaxNormalizedPayload < s.payload.length)) .protocolMismatch
  let nowTick ← onPlatform Platform.nowTick
  refuse (tickReached nowTick s.deadlineTick) .deadlineExpired
  let live := (← get).runtime.pending.liveCount
  let admission ← onService mapAdmissionFault
    (ServiceController.admitRequest nowTick s.deadlineTick (UInt64.ofNat live))
  match ← attempt allocateCorrelation with
  | .error error => rollBack admission error
  | .ok identity =>
    match (← get).runtime.pending.insert
        ⟨identity.1, identity.2, s.opcode, s.deadlineTick, admission⟩ with
    | .error error => rollBack admission error
    | .ok pending =>
      setPending pending
      match ← attempt (sendWire (s.command identity)) with
      | .error error =>
        setPending ((← get).runtime.pending.cancel identity)
        rollBack admission error
      | .ok () =>
        modify fun t => { t with runtime := { t.runtime with lastAdmission := some admission } }
        pure identity

inductive EventDisposition
  | reply (epoch sequence : UInt32)
  | asynchronous
  | unclassified

structure ReceivedEvent where
  event : HermesNormalizedEvent
  disposition : EventDisposition

def pollEvent : Act n (Option ReceivedEvent) := do
  refuse (← get).runtime.poisoned .recoveryRequired
  match ← readWireEvent with
  | none => pure none
  | some event =>
    let nowTick ← onPlatform Platform.nowTick
    if event.eventKind = hermesEventFault then
      modify fun t => { t with runtime := { t.runtime with poisoned := true } }
      if event.correlationEpoch ≠ 0 ∧ event.correlationSequence ≠ 0 then
        match (← get).runtime.pending.takeResponse event with
        | .ok (pending, table) =>
          setPending table
          discard (onService mapAdmissionFault
            (ServiceController.observeCompletion pending.admission nowTick))
        | .error _ => pure ()
      throw .recoveryRequired
    else if event.eventKind = hermesEventReply then
      match (← get).runtime.pending.takeResponse event with
      | .error error => poison error
      | .ok (pending, table) =>
        setPending table
        discard (orPoison (onService mapAdmissionFault
          (ServiceController.observeCompletion pending.admission nowTick)))
        refuse (tickReached nowTick pending.deadlineTick) .responseExpired
        if pending.opcode ≠ event.opcode then
          poison .responseMismatch
        else
          pure (some ⟨event, .reply pending.epoch pending.sequence⟩)
    else if event.eventKind = hermesEventAsync then
      pure (some ⟨event, .asynchronous⟩)
    else
      pure (some ⟨event, .unclassified⟩)

def expireOne : Act n (Option Identity) := do
  refuse (← get).runtime.poisoned .recoveryRequired
  let nowTick ← onPlatform Platform.nowTick
  match (← get).runtime.pending.expireOne nowTick with
  | none => pure none
  | some (expired, table) =>
    setPending table
    discard (onService mapAdmissionFault
      (ServiceController.observeCompletion expired.admission nowTick))
    pure (some expired.identity)

end Hermes

end Sisyphus.HermesGsp
