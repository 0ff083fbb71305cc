import Mathlib.Data.Int.Bitwise
import Sisyphus.Foundation.Fallible

/-!
# The policy machine

A model of `blacklab_vm.rs`: programs of up to 64 instructions, each a 64-bit word, over sixteen
registers.  `verify` looks at every instruction once: it decodes, its operands name a metric or a
control field, jumps go forward and stay inside, and somewhere there is a `Halt`.  `execute` runs a
verified program with a budget of 128 steps and returns the controls it has set.

Registers hold numbers in the range of `i64`, which the saturating operations keep.
-/

set_option autoImplicit false

namespace Sisyphus.Blacklab

open Fallible

def maxInstructions : Nat := 64
def maximumFuel : Nat := 128

inductive Opcode
  | nop
  | loadMetric
  | loadImmediate
  | addSaturating
  | subtractSaturating
  | multiplyQ16
  | compareGreater
  | jumpIfZero
  | setControl
  | halt
  deriving DecidableEq

def Opcode.fromRaw (raw : UInt8) : Option Opcode :=
  [nop, loadMetric, loadImmediate, addSaturating, subtractSaturating, multiplyQ16, compareGreater,
    jumpIfZero, setControl, halt][raw.toNat]?

inductive MetricId
  | heat
  | queuePressure
  | collapseRate
  | phaseDrift
  | replayPressure
  | coherence
  | kernelPhase
  deriving DecidableEq

def MetricId.fromRaw (raw : UInt8) : Option MetricId :=
  [heat, queuePressure, collapseRate, phaseDrift, replayPressure, coherence,
    kernelPhase][raw.toNat]?

inductive ControlField
  | priorityMass
  | collapseThreshold
  | targetPhase
  | quarantineTicks
  | flags
  | heatCeiling
  deriving DecidableEq

def ControlField.fromRaw (raw : UInt8) : Option ControlField :=
  [priorityMass, collapseThreshold, targetPhase, quarantineTicks, flags, heatCeiling][raw.toNat]?

/-! ## Programs -/

structure LabInstruction where
  raw : UInt64

namespace LabInstruction

def opcode (i : LabInstruction) : Option Opcode := Opcode.fromRaw i.raw.toUInt8

def destination (i : LabInstruction) : Fin 16 := Fin.ofNat 16 (i.raw >>> 8).toNat

def source (i : LabInstruction) : Fin 16 := Fin.ofNat 16 (i.raw >>> 12).toNat

def immediate (i : LabInstruction) : Int := (i.raw >>> 16).toUInt32.toBitVec.toInt

/-- `immediate() as u8`. -/
def immediateByte (i : LabInstruction) : UInt8 := (i.raw >>> 16).toUInt8

def auxiliary (i : LabInstruction) : UInt8 := (i.raw >>> 48).toUInt8

end LabInstruction

structure LabProgram where
  instructions : Fin maxInstructions → LabInstruction
  length : UInt8

/-- `instructions[pc]`, which the verifier and the machine read below `maxInstructions` only. -/
def LabProgram.fetch (program : LabProgram) (pc : Nat) : LabInstruction :=
  if h : pc < maxInstructions then program.instructions ⟨pc, h⟩ else ⟨0⟩

structure LabMetrics where
  heat : Int64
  queuePressure : Int64
  collapseRate : Int64
  phaseDrift : Int64
  replayPressure : Int64
  coherence : Int64
  kernelPhase : Int64

def LabMetrics.read (metrics : LabMetrics) : MetricId → Int64
  | .heat => metrics.heat
  | .queuePressure => metrics.queuePressure
  | .collapseRate => metrics.collapseRate
  | .phaseDrift => metrics.phaseDrift
  | .replayPressure => metrics.replayPressure
  | .coherence => metrics.coherence
  | .kernelPhase => metrics.kernelPhase

/-- The fields of a `ControlVector`; `none` where the bit of `mask` is clear. -/
abbrev ControlVector := ControlField → Option Int

/-! ## The verifier -/

inductive VerifyError
  | empty
  | tooLong
  | badOpcode (pc : Nat)
  | badMetric (pc : Nat)
  | badControl (pc : Nat)
  | invalidBranch (pc : Nat)
  | missingHalt
  deriving DecidableEq

inductive ExecutionError
  | verification (error : VerifyError)
  | fuelExhausted
  | fellOffProgram

/-- One turn of the loop of `verify`; the accumulator is `has_halt`. -/
def verifyAt (program : LabProgram) (hasHalt : Bool) (pc : Nat) : Except VerifyError Bool := do
  let instruction := program.fetch pc
  let opcode ← okOr instruction.opcode (.badOpcode pc)
  match opcode with
  | .loadMetric => do
    let _ ← okOr (MetricId.fromRaw instruction.immediateByte) (.badMetric pc)
    pure hasHalt
  | .setControl => do
    let _ ← okOr (ControlField.fromRaw instruction.auxiliary) (.badControl pc)
    pure hasHalt
  | .jumpIfZero => do
    let target := instruction.auxiliary.toNat
    reject (decide (target ≤ pc) || decide (program.length.toNat ≤ target)) (.invalidBranch pc)
    pure hasHalt
  | .halt => pure true
  | _ => pure hasHalt

def verify (program : LabProgram) : Except VerifyError Unit := do
  let length := program.length.toNat
  reject (length == 0) .empty
  reject (decide (maxInstructions < length)) .tooLong
  let hasHalt ← (List.range length).foldlM (verifyAt program) false
  reject (!hasHalt) .missingHalt

/-! ## The machine -/

/-- `clamp(i64::MIN, i64::MAX)`, which is what saturating arithmetic does to the exact result. -/
def clamp (value : Int) : Int := max (-2 ^ 63) (min value (2 ^ 63 - 1))

structure Machine where
  pc : Nat
  registers : Fin 16 → Int
  control : ControlVector

def Machine.initial : Machine := ⟨0, fun _ => 0, fun _ => none⟩

/-- The machine behind an instruction that has put a value into a register. -/
def Machine.load (s : Machine) (register : Fin 16) (value : Int) : Machine :=
  { s with pc := s.pc + 1, registers := Function.update s.registers register value }

/-- The turn of the loop of `execute` for the instruction at `pc`; `none` is the return at
`Halt`. -/
def step (program : LabProgram) (metrics : LabMetrics) (s : Machine) :
    Except ExecutionError (Option Machine) := do
  let instruction := program.fetch s.pc
  let opcode ← okOr instruction.opcode .fellOffProgram
  let destination := instruction.destination
  let left := s.registers destination
  let right := s.registers instruction.source
  match opcode with
  | .nop => pure (some { s with pc := s.pc + 1 })
  | .loadMetric => do
    let metric ← okOr (MetricId.fromRaw instruction.immediateByte) .fellOffProgram
    pure (some (s.load destination (metrics.read metric).toInt))
  | .loadImmediate => pure (some (s.load destination instruction.immediate))
  | .addSaturating => pure (some (s.load destination (clamp (left + right))))
  | .subtractSaturating => pure (some (s.load destination (clamp (left - right))))
  | .multiplyQ16 => pure (some (s.load destination (clamp ((left * right) >>> 16))))
  | .compareGreater => pure (some (s.load destination (if right < left then 1 else 0)))
  | .jumpIfZero =>
    pure (some { s with pc := if left = 0 then instruction.auxiliary.toNat else s.pc + 1 })
  | .setControl => do
    let field ← okOr (ControlField.fromRaw instruction.auxiliary) .fellOffProgram
    pure (some { s with pc := s.pc + 1, control := Function.update s.control field (some left) })
  | .halt => pure none

/-- The loop of `execute`. -/
def loop (program : LabProgram) (metrics : LabMetrics) (fuel : Nat) (s : Machine) :
    Except ExecutionError ControlVector :=
  if s.pc < program.length.toNat then
    match fuel with
    | 0 => .error .fuelExhausted
    | fuel + 1 => do
      match ← step program metrics s with
      | none => pure s.control
      | some t => loop program metrics fuel t
  else .error .fellOffProgram

def execute (program : LabProgram) (metrics : LabMetrics) :
    Except ExecutionError ControlVector := do
  (verify program).mapError ExecutionError.verification
  loop program metrics maximumFuel Machine.initial

end Sisyphus.Blacklab
