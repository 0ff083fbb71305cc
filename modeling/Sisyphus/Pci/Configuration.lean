import Sisyphus.Foundation.Ensures

/-!
# PCI configuration space

A model of the part of `hw/pci.rs` that the BAR probe and the bus-master transactions share: the
trait `ConfigurationSpace`, the retained evidence `PciExpectedConfiguration`, the aperture
`Bar0ApertureLease`, and the errors.

Every access may fail, and a write that fails may still have reached the register.  The two
structures `CommandRegister` and `Registers` say what is left to rely on: a read that succeeds
returns what the register holds, a read changes nothing, and a write changes no other register.
Nothing is said about the register a write is addressed to, so that a write may take effect, be
ignored, or leave only some bits behind, whether it reports success or not.  `PciFunction` is a
function with an explicit pattern of faults, and `PciFunction.registers` is the proof that it is
one of them.
-/

set_option autoImplicit false

namespace Sisyphus.Pci

open Fallible UInt64

abbrev barCount : Nat := 6

instance : NeZero barCount := ⟨by decide⟩

def invalidVendorId : UInt16 := 0xffff
def commandOffset : UInt8 := 0x04
def headerOffset : UInt8 := 0x0c
def bar0Offset : UInt8 := 0x10
def commandIoSpace : UInt16 := 1
def commandMemorySpace : UInt16 := 2
def commandBusMaster : UInt16 := 4
def commandDecodeAndMaster : UInt16 := 7
def allBarsRestored : UInt8 := 63

structure PciAddress where
  bus : UInt8
  slot : UInt8
  function : UInt8
  deriving DecidableEq

/-- The dword of BAR `index`. -/
def barOffset (index : Fin barCount) : UInt8 := bar0Offset + UInt8.ofNat index.val * 4

theorem barOffset_inj {i j : Fin barCount} : barOffset i = barOffset j ↔ i = j := by
  revert i j
  decide

/-! ## Accesses -/

class ConfigurationSpace (σ : Type) where
  readU32 (offset : UInt8) : EStateM Unit σ UInt32
  writeU32 (offset : UInt8) (value : UInt32) : EStateM Unit σ Unit
  readCommand : EStateM Unit σ UInt16
  writeCommand (value : UInt16) : EStateM Unit σ Unit

export ConfigurationSpace (readU32 writeU32 readCommand writeCommand)

section Contract

variable (σ : Type) [ConfigurationSpace σ]

/-- A configuration space whose command register is written by `writeCommand` only. -/
structure CommandRegister where
  command : σ → UInt16
  read_command : ∀ s, Ensures readCommand s (fun v t => v = command s ∧ command t = command s)
    fun _ t => command t = command s
  read_u32 : ∀ s offset, Ensures (readU32 offset) s (fun _ t => command t = command s)
    fun _ t => command t = command s

/-- A configuration space whose BARs, too, are changed by nothing but writes to them. -/
structure Registers extends CommandRegister σ where
  bar : σ → Fin barCount → UInt32
  read_command_bar : ∀ s, Ensures readCommand s (fun _ t => bar t = bar s) fun _ t => bar t = bar s
  read_bar : ∀ s i, Ensures (readU32 (barOffset i)) s (fun v _ => v = bar s i) fun _ _ => True
  read_u32_bar : ∀ s offset, Ensures (readU32 offset) s (fun _ t => bar t = bar s)
    fun _ t => bar t = bar s
  write_bar : ∀ s i v, Ensures (writeU32 (barOffset i) v) s
    (fun _ t => command t = command s ∧ ∀ j, j ≠ i → bar t j = bar s j)
    fun _ t => command t = command s ∧ ∀ j, j ≠ i → bar t j = bar s j
  write_command : ∀ s v, Ensures (writeCommand v) s (fun _ t => bar t = bar s)
    fun _ t => bar t = bar s

end Contract

/-! ## A function with a pattern of faults -/

/-- What becomes of one access.  A read is either done or fails. -/
inductive Outcome
  | done
  | ignored
  | failed (effect : Bool)

def Outcome.fails : Outcome → Bool
  | .failed _ => true
  | _ => false

def Outcome.takesEffect : Outcome → Bool
  | .done => true
  | .ignored => false
  | .failed effect => effect

/-- A function with its registers, what each BAR keeps of a value written to it, and the outcomes
of the accesses to come.  When the list of outcomes is used up, every access is done. -/
structure PciFunction where
  command : UInt16
  dword : UInt8 → UInt32
  latch : UInt8 → UInt32 → UInt32
  outcomes : List Outcome

namespace PciFunction

/-- Takes the next outcome off the pattern. -/
def next (f : PciFunction) : Outcome × PciFunction :=
  (f.outcomes.headD .done, { f with outcomes := f.outcomes.tail })

def answer {α : Type} (f : PciFunction) (outcome : Outcome) (a : α) :
    EStateM.Result Unit PciFunction α :=
  if outcome.fails then .error () f else .ok a f

instance : ConfigurationSpace PciFunction where
  readU32 offset := fun f => f.next.2.answer f.next.1 (f.dword offset)
  writeU32 offset value := fun f =>
    let latched := Function.update f.dword offset (f.latch offset value)
    let dword := if f.next.1.takesEffect then latched else f.dword
    { f.next.2 with dword := dword }.answer f.next.1 ()
  readCommand := fun f => f.next.2.answer f.next.1 f.command
  writeCommand value := fun f =>
    let command := if f.next.1.takesEffect then value else f.command
    { f.next.2 with command := command }.answer f.next.1 ()

theorem ensures_answer {α : Type} {x : EStateM Unit PciFunction α} {f g : PciFunction}
    {outcome : Outcome} {a : α} {Q : α → PciFunction → Prop} {E : Unit → PciFunction → Prop}
    (hx : x f = g.answer outcome a) (hQ : Q a g) (hE : E () g) : Ensures x f Q E := by
  rw [Ensures, hx, answer]
  cases outcome.fails with
  | false => exact hQ
  | true => exact hE

/-- Whatever the pattern of faults, the registers are what the accesses say they are. -/
def registers : Registers PciFunction where
  command := PciFunction.command
  bar f i := f.dword (barOffset i)
  read_command _ := ensures_answer rfl ⟨rfl, rfl⟩ rfl
  read_u32 _ _ := ensures_answer rfl rfl rfl
  read_command_bar _ := ensures_answer rfl rfl rfl
  read_bar _ _ := ensures_answer rfl rfl trivial
  read_u32_bar _ _ := ensures_answer rfl rfl rfl
  write_bar f i v := by
    have hother : ∀ j, j ≠ i →
        (if f.next.1.takesEffect then
          Function.update f.dword (barOffset i) (f.latch (barOffset i) v) else f.dword)
          (barOffset j) = f.dword (barOffset j) := by
      intro j hj
      have hne : barOffset j ≠ barOffset i := fun h => hj (barOffset_inj.mp h)
      split
      · exact Function.update_of_ne hne _ _
      · rfl
    exact ensures_answer rfl ⟨rfl, hother⟩ ⟨rfl, hother⟩
  write_command _ _ := ensures_answer rfl rfl rfl

end PciFunction

/-! ## Retained evidence -/

/-- Exact retained type-0 configuration evidence.  Its two conditions are what `from_device`
checks. -/
structure PciExpectedConfiguration where
  address : PciAddress
  vendorId : UInt16
  deviceId : UInt16
  classCode : UInt8
  subclass : UInt8
  programmingInterface : UInt8
  revision : UInt8
  headerType : UInt8
  command : UInt16
  rawBars : Fin barCount → UInt32
  present : vendorId ≠ 0 ∧ vendorId ≠ invalidVendorId
  typeZero : headerType &&& 0x7f = 0

namespace PciExpectedConfiguration

def vendorDevice (expected : PciExpectedConfiguration) : UInt32 :=
  expected.deviceId.toUInt32 <<< 16 ||| expected.vendorId.toUInt32

def classRevision (expected : PciExpectedConfiguration) : UInt32 :=
  expected.classCode.toUInt32 <<< 24 ||| expected.subclass.toUInt32 <<< 16 |||
    expected.programmingInterface.toUInt32 <<< 8 ||| expected.revision.toUInt32

end PciExpectedConfiguration

/-- The base address that a BAR0 image encodes, if it is a memory BAR of a known type. -/
def bar0Base (bars : Fin barCount → UInt32) : Option UInt64 :=
  let low := bars 0
  if low &&& 1 ≠ 0 then none
  else
    match ((low >>> 1) &&& 3).toNat with
    | 0 => some (low &&& 0xfffffff0).toUInt64
    | 1 => some (low &&& 0x000ffff0).toUInt64
    | 2 => some ((bars 1).toUInt64 <<< 32 ||| (low &&& 0xfffffff0).toUInt64)
    | _ => none

/-! ## The aperture -/

/-- An exact, restored BAR0 MMIO aperture.  Construction is private to the probe, which checks that
the window is assigned, naturally aligned and below the top of the address space. -/
structure Bar0ApertureLease where
  address : PciAddress
  physicalBase : UInt64
  length : UInt64
  assigned : physicalBase ≠ 0 ∧ length ≠ 0
  aligned : physicalBase &&& (length - 1) = 0
  fits : physicalBase.toNat + length.toNat < 2 ^ 64

end Sisyphus.Pci
