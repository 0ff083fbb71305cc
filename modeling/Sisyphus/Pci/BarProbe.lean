import Sisyphus.Foundation.Words
import Sisyphus.Pci.Configuration

/-!
# Sizing the BARs

A model of `probe_bar_lengths` of `hw/pci.rs` and of what it calls.  A BAR is sized by writing ones
to it and reading back which of them stick, so while it is being sized the function must not decode
the address it holds.  The probe therefore disables decoding and bus mastering first, takes the
complete restore path once sizing has begun, and gives memory decoding back only when every BAR was
read back as it was.

The BARs are a function of their index, and the loops over them run over `List.finRange`.
-/

set_option autoImplicit false

namespace Sisyphus.Pci

open Fallible

/-! ## Errors -/

inductive BarCommandState
  | decodeDisabled
  | observed (command : UInt16)
  | unknown

inductive BarRestoreFault
  | writeFailed (offset : UInt8)
  | readFailed (offset : UInt8)
  | mismatch (offset : UInt8) (expected observed : UInt32)

/-- Evidence that a BAR-sizing transaction could not prove its rollback.  The bitmap names BAR
dwords whose original values were read back exactly. -/
structure BarRestorationDebt where
  address : PciAddress
  fault : BarRestoreFault
  restoredBarMask : UInt8
  commandState : BarCommandState

inductive BarProbeError
  | configurationAccessFailed (offset : UInt8)
  | expectedAddressMismatch
  | configurationChanged (offset : UInt8)
  | deviceAbsent
  | unsupportedHeader (headerType : UInt8)
  | quiescenceFailed (command : UInt16)
  | invalidBarEncoding (index : Nat)
  | truncated64BitBar (index : Nat)
  | invalidSizeMask (index : Nat)
  | bar0IsIo
  | bar0Unassigned
  | bar0Misaligned (base length : UInt64)
  | bar0AddressOverflow
  | restorationDebt (debt : BarRestorationDebt)

def restorationDebt (address : PciAddress) (fault : BarRestoreFault) (restoredBarMask : UInt8)
    (commandState : BarCommandState) : BarProbeError :=
  .restorationDebt ⟨address, fault, restoredBarMask, commandState⟩

/-- Whether the bitmap names a BAR. -/
def named (mask : UInt8) (index : Fin barCount) : Bool :=
  mask &&& (1 <<< UInt8.ofNat index.val) != 0

abbrev BarSnapshot : Type := Fin barCount → UInt32
abbrev BarLengths : Type := Fin barCount → UInt64

structure BarMeasurement where
  snapshot : BarSnapshot
  lengths : BarLengths

def commandState (command : UInt16) : BarCommandState :=
  if command &&& commandDecodeAndMaster = 0 then .decodeDisabled else .observed command

/-! ## Sizing -/

section Sizing

variable {σ : Type} [ConfigurationSpace σ]

def read (offset : UInt8) : EStateM BarProbeError σ UInt32 :=
  mapErr (fun _ => .configurationAccessFailed offset) (readU32 offset)

def write (offset : UInt8) (value : UInt32) : EStateM BarProbeError σ Unit :=
  mapErr (fun _ => .configurationAccessFailed offset) (writeU32 offset value)

def decodeSize (index : Fin barCount) (mask widthMask : UInt64) (allowZeroMask : Bool) :
    Except BarProbeError UInt64 :=
  if mask = 0 ∧ allowZeroMask = false then .error (.invalidSizeMask index)
  else
    let size := (~~~mask &&& widthMask) + 1
    if Words.isPowerOfTwo size then .ok size else .error (.invalidSizeMask index)

/-- The length of an I/O BAR from the value read back; zero for a BAR that is not implemented. -/
def decodeIo (index : Fin barCount) (original probed : UInt32) : Except BarProbeError UInt64 :=
  if probed = 0 then .ok 0
  else if probed &&& 0x3 ≠ original &&& 0x3 then .error (.invalidBarEncoding index)
  else decodeSize index (probed &&& 0xfffffffc).toUInt64 0xffffffff false

/-- The length of a memory BAR of one dword.  Type 1 must lie below one MiB. -/
def decodeMemory (index : Fin barCount) (original : UInt32) (belowOneMiB : Bool) (probed : UInt32) :
    Except BarProbeError UInt64 :=
  if probed = 0 then .ok 0
  else if probed &&& 0xf ≠ original &&& 0xf then .error (.invalidBarEncoding index)
  else if belowOneMiB then
    if original &&& 0xfff00000 ≠ 0 ∨ probed &&& 0xfff00000 ≠ 0 then
      .error (.invalidBarEncoding index)
    else do
      let size ← decodeSize index (probed &&& 0x000ffff0).toUInt64 0x000fffff true
      if 0x100000 < size then .error (.invalidBarEncoding index) else .ok size
  else decodeSize index (probed &&& 0xfffffff0).toUInt64 0xffffffff false

/-- The length of a 64-bit memory BAR, whose high half is the next dword. -/
def decodeMemory64 (index : Fin barCount) (original probedLow probedHigh : UInt32) :
    Except BarProbeError UInt64 :=
  if probedLow = 0 ∧ probedHigh = 0 then .ok 0
  else if probedLow &&& 0xf ≠ original &&& 0xf then .error (.invalidBarEncoding index)
  else
    let mask := probedHigh.toUInt64 <<< 32 ||| (probedLow &&& 0xfffffff0).toUInt64
    decodeSize index mask 0xffffffffffffffff false

/-- Writes ones to a BAR of one dword and decodes what it reads back. -/
def sizeDword (index : Fin barCount) (decode : UInt32 → Except BarProbeError UInt64) :
    EStateM BarProbeError σ UInt64 := do
  write (barOffset index) 0xffffffff
  let probed ← read (barOffset index)
  propagate (decode probed)

/-- The same for a BAR of two dwords. -/
def sizePair (index high : Fin barCount) (decode : UInt32 → UInt32 → Except BarProbeError UInt64) :
    EStateM BarProbeError σ UInt64 := do
  write (barOffset index) 0xffffffff
  write (barOffset high) 0xffffffff
  let probedLow ← read (barOffset index)
  let probedHigh ← read (barOffset high)
  propagate (decode probedLow probedHigh)

/-- The loop of `size_bars` over the BARs still to be sized.  A 64-bit BAR takes two of them, and
has none left to take when it is the last. -/
def sizeBarsFrom (snapshot : BarSnapshot) :
    List (Fin barCount) → BarLengths → EStateM BarProbeError σ BarLengths
  | [], lengths => pure lengths
  | index :: rest, lengths => do
    let original := snapshot index
    if original &&& 1 ≠ 0 then
      refuse (original &&& 0x2 != 0) (.invalidBarEncoding index)
      let length ← sizeDword index (decodeIo index original)
      sizeBarsFrom snapshot rest (Function.update lengths index length)
    else
      let memoryType := (original >>> 1) &&& 0x3
      if memoryType = 0 ∨ memoryType = 1 then
        let length ← sizeDword index (decodeMemory index original (memoryType == 1))
        sizeBarsFrom snapshot rest (Function.update lengths index length)
      else if memoryType = 2 then
        match rest with
        | [] => throw (.truncated64BitBar index)
        | high :: rest =>
          let length ← sizePair index high (decodeMemory64 index original)
          sizeBarsFrom snapshot rest (Function.update lengths index length)
      else throw (.invalidBarEncoding index)

def sizeBars (snapshot : BarSnapshot) : EStateM BarProbeError σ BarLengths :=
  sizeBarsFrom snapshot (List.finRange barCount) fun _ => 0

/-! ## Restoring -/

/-- Writes back every BAR, the last one first, whatever becomes of each write. -/
def restoreBars {ε : Type} (snapshot : BarSnapshot) : EStateM ε σ (Option BarRestoreFault) :=
  (List.finRange barCount).reverse.foldlM (fun firstFault index => do
    match ← attempt (writeU32 (barOffset index) (snapshot index)) with
    | .ok _ => pure firstFault
    | .error _ => pure (firstFault.or (some (.writeFailed (barOffset index))))) none

/-- Looks whether the command register still holds the disabled command. -/
def observeDisabled {ε : Type} (disabledCommand : UInt16) (firstFault : Option BarRestoreFault) :
    EStateM ε σ (Option BarRestoreFault × BarCommandState) := do
  match ← attempt readCommand with
  | .ok observed =>
    if observed = disabledCommand then pure (firstFault, .decodeDisabled)
    else
      let fault := .mismatch commandOffset disabledCommand.toUInt32 observed.toUInt32
      pure (firstFault.or (some fault), commandState observed)
  | .error _ => pure (firstFault.or (some (.readFailed commandOffset)), .unknown)

def verifyBars {ε : Type} (snapshot : BarSnapshot) (firstFault : Option BarRestoreFault) :
    EStateM ε σ (UInt8 × Option BarRestoreFault) :=
  (List.finRange barCount).foldlM (fun (mask, firstFault) index => do
    let offset := barOffset index
    match ← attempt (readU32 offset) with
    | .ok observed =>
      if observed = snapshot index then pure (mask ||| (1 <<< UInt8.ofNat index.val), firstFault)
      else pure (mask, firstFault.or (some (.mismatch offset (snapshot index) observed)))
    | .error _ => pure (mask, firstFault.or (some (.readFailed offset)))) (0, firstFault)

def restoreAndVerifyBars (address : PciAddress) (snapshot : BarSnapshot)
    (disabledCommand : UInt16) : EStateM BarProbeError σ UInt8 := do
  let firstFault ← restoreBars snapshot
  let (firstFault, _) ← observeDisabled disabledCommand firstFault
  let (mask, firstFault) ← verifyBars snapshot firstFault
  let (firstFault, state) ← observeDisabled disabledCommand firstFault
  match firstFault with
  | some fault => throw (restorationDebt address fault mask state)
  | none => pure mask

/-! ## The probe -/

def validateExpectedConfiguration (expected : PciExpectedConfiguration)
    (vendorDevice classRevision : UInt32) (headerType : UInt8) (command : UInt16)
    (bars : BarSnapshot) : Except BarProbeError Unit := do
  if vendorDevice ≠ expected.vendorDevice then throw (.configurationChanged 0x00)
  if classRevision ≠ expected.classRevision then throw (.configurationChanged 0x08)
  if headerType ≠ expected.headerType then throw (.configurationChanged headerOffset)
  if command ≠ expected.command then throw (.configurationChanged commandOffset)
  forM (List.finRange barCount) fun index => do
    if bars index ≠ expected.rawBars index then throw (.configurationChanged (barOffset index))

def buildBar0Lease (address : PciAddress) (measurement : BarMeasurement) :
    Except BarProbeError Bar0ApertureLease := do
  if measurement.snapshot 0 &&& 1 ≠ 0 then throw .bar0IsIo
  match bar0Base measurement.snapshot with
  | none => throw (.invalidBarEncoding 0)
  | some physicalBase =>
    let length := measurement.lengths 0
    if hassigned : physicalBase ≠ 0 ∧ length ≠ 0 then
      if haligned : physicalBase &&& (length - 1) = 0 then
        if hfits : physicalBase.toNat + length.toNat < 2 ^ 64 then
          pure ⟨address, physicalBase, length, hassigned, haligned, hfits⟩
        else throw .bar0AddressOverflow
      else throw (.bar0Misaligned physicalBase length)
    else throw .bar0Unassigned

/-- Reads the six BARs into a snapshot. -/
def readSnapshot : EStateM BarProbeError σ BarSnapshot :=
  (List.finRange barCount).foldlM (fun bars index => do
    let bar ← read (barOffset index)
    pure (Function.update bars index bar)) fun _ => 0

/-- The part of the probe that disables decoding and bus mastering, and reads back that they are. -/
def quiesce (address : PciAddress) (command : UInt16) : EStateM BarProbeError σ Unit := do
  let disabledCommand := command &&& ~~~commandDecodeAndMaster
  match ← attempt (writeCommand disabledCommand) with
  | .error _ =>
    throw (restorationDebt address (.writeFailed commandOffset) allBarsRestored .unknown)
  | .ok _ =>
    match ← attempt readCommand with
    | .error _ =>
      throw (restorationDebt address (.readFailed commandOffset) allBarsRestored .unknown)
    | .ok disabled =>
      refuse (disabled != disabledCommand || disabled &&& commandDecodeAndMaster != 0)
        (.quiescenceFailed disabled)

/-- Gives back the original memory decode bit, once everything else is restored. -/
def recommit (address : PciAddress) (command : UInt16) (restoredBarMask : UInt8) :
    EStateM BarProbeError σ Unit := do
  let committedCommand := command &&& ~~~(commandIoSpace ||| commandBusMaster)
  match ← attempt (writeCommand committedCommand) with
  | .error _ =>
    throw (restorationDebt address (.writeFailed commandOffset) restoredBarMask .unknown)
  | .ok _ =>
    match ← attempt readCommand with
    | .ok observed =>
      refuse (observed != committedCommand)
        (restorationDebt address
          (.mismatch commandOffset committedCommand.toUInt32 observed.toUInt32)
          restoredBarMask (commandState observed))
    | .error _ =>
      throw (restorationDebt address (.readFailed commandOffset) restoredBarMask .unknown)

/-- What follows the sizing of the BARs, whatever its result: the complete restore path, and only
then the result. -/
def concludeProbe (address : PciAddress) (requireBar0Lease : Bool) (command : UInt16)
    (bars : BarSnapshot) (probeResult : Except BarProbeError BarLengths) :
    EStateM BarProbeError σ (BarMeasurement × Option Bar0ApertureLease) := do
  let restoredBarMask ← restoreAndVerifyBars address bars (command &&& ~~~commandDecodeAndMaster)
  let lengths ← propagate probeResult
  let measurement : BarMeasurement := ⟨bars, lengths⟩
  let bar0Lease ← propagate
    (if requireBar0Lease then (buildBar0Lease address measurement).map some else .ok none)
  recommit address command restoredBarMask
  pure (measurement, bar0Lease)

def probeBarLengths (address : PciAddress) (requireBar0Lease : Bool)
    (expected : Option PciExpectedConfiguration) :
    EStateM BarProbeError σ (BarMeasurement × Option Bar0ApertureLease) := do
  refuse (expected.any fun expected => expected.address != address) .expectedAddressMismatch
  let vendorDevice ← read 0x00
  refuse (vendorDevice.toUInt16 == invalidVendorId) .deviceAbsent
  let classRevision ← read 0x08
  let header ← read headerOffset
  let headerType := (header >>> 16).toUInt8
  refuse (headerType &&& 0x7f != 0) (.unsupportedHeader headerType)
  let command ← mapErr (fun _ => .configurationAccessFailed commandOffset) readCommand
  let bars ← readSnapshot
  propagate (expected.elim (.ok ()) fun expected =>
    validateExpectedConfiguration expected vendorDevice classRevision headerType command bars)
  quiesce address command
  let probeResult ← attempt (sizeBars bars)
  concludeProbe address requireBar0Lease command bars probeResult

end Sizing

end Sisyphus.Pci
