import Sisyphus.Foundation.Ensures
import Sisyphus.Foundation.Run
import Sisyphus.Foundation.Slots
import Sisyphus.Process.Context

/-!
# Privilege domains and their hardware

A model of the registry of `ring_authority.rs`.  A domain is a native hardware cell, a personality
translator or a user process.  Each has an address space of its own, and only hardware cells have
hardware: ranges of I/O ports and of memory-mapped registers, and one DMA requester.  The registry
compares the hardware of a new cell with that of every cell it has.

A range is valid by construction, since the source's fields are private and `new` checks what is
stated with them here.  Grants are only ever added to an authority, so that its arrays of options
are lists of bounded length.
-/

set_option autoImplicit false

namespace Sisyphus.Ring

open Fallible Slots

inductive PrivilegeRing where
  | kernel
  | hardwareCell
  | personality
  | user
  deriving DecidableEq

inductive DomainRole where
  | nativeHardwareCell
  | personalityTranslator
  | userProcess
  deriving DecidableEq

def DomainRole.ring : DomainRole → PrivilegeRing
  | .nativeHardwareCell => .hardwareCell
  | .personalityTranslator => .personality
  | .userProcess => .user

inductive TransitionGate where
  | iretq
  | sysretq
  deriving DecidableEq

def validDispatchGate (source target : PrivilegeRing) (gate : TransitionGate) : Bool :=
  if source ≠ .kernel then false
  else
    match gate with
    | .iretq => target ≠ .kernel
    | .sysretq => target = .user

inductive AuthorityError where
  | invalidAddressSpaceRoot
  | sharedAddressSpace
  | invalidCpuGeneration
  | invalidIoPortRange
  | invalidMmioRange
  | invalidDmaGrant
  | overlappingIoPortRange
  | overlappingMmioRange
  | ioPortCapacity
  | mmioCapacity
  | dmaAlreadyGranted
  | hardwareCellHasNoAuthority
  | hardwareAuthorityForbidden
  | hardwareRequestDenied
  | hardwareAuthorityConflict
  | domainCapacity
  | domainBusy
  | generationExhausted
  | corruptExecutionReference
  | staleDomain
  | kernelAddressSpaceMismatch
  | kernelNotActive
  | transitionAlreadyPending
  | invalidTransitionGate
  | wrongCpu
  | staleTransition
  | unexpectedCaller
  | sourceAddressSpaceMismatch
  | staleInvocation
  deriving DecidableEq

/-! ## Hardware -/

structure IoPortRange where
  first : UInt16
  last : UInt16
  ordered : first ≤ last
  deriving DecidableEq

namespace IoPortRange

/-- An access of 1, 2 or 4 bytes is inside the range. -/
def contains (range : IoPortRange) (first : UInt16) (byteWidth : UInt8) : Bool :=
  (byteWidth == 1 || byteWidth == 2 || byteWidth == 4) &&
    decide (first.toNat + (byteWidth.toNat - 1) < 2 ^ 16) &&
    decide (range.first.toNat ≤ first.toNat) &&
    decide (first.toNat + (byteWidth.toNat - 1) ≤ range.last.toNat)

def overlaps (range other : IoPortRange) : Bool :=
  decide (range.first ≤ other.last) && decide (other.first ≤ range.last)

end IoPortRange

structure MmioAccess where
  bits : UInt8
  deriving DecidableEq

namespace MmioAccess

def valid (access : MmioAccess) : Bool := access.bits != 0 && access.bits &&& ~~~3 == 0

def contains (access requested : MmioAccess) : Bool :=
  requested.valid && access.bits &&& requested.bits == requested.bits

end MmioAccess

structure MmioRange where
  base : UInt64
  length : UInt64
  access : MmioAccess
  base_aligned : base &&& 0xfff = 0
  nonempty : length ≠ 0
  length_aligned : length &&& 0xfff = 0
  fits : base.toNat + length.toNat < 2 ^ 64
  access_valid : access.valid = true
  deriving DecidableEq

namespace MmioRange

/-- The end of the range, which is not beyond that of the address space. -/
def stop (range : MmioRange) : UInt64 := range.base + range.length

def contains (range : MmioRange) (address length : UInt64) (access : MmioAccess) : Bool :=
  length != 0 && range.access.contains access &&
    decide (address.toNat + length.toNat < 2 ^ 64) && decide (range.base ≤ address) &&
    decide (address + length ≤ range.stop)

def overlaps (range other : MmioRange) : Bool :=
  decide (range.base < other.stop) && decide (other.base < range.stop)

end MmioRange

structure DmaGrant where
  iommuDomain : UInt64
  generation : UInt32
  requesterId : UInt16
  deriving DecidableEq

def maximumIoPortRanges : Nat := 8

def maximumMmioRanges : Nat := 8

structure HardwareAuthority where
  ioPorts : List IoPortRange
  mmio : List MmioRange
  dma : Option DmaGrant
  ioPorts_fit : ioPorts.length ≤ maximumIoPortRanges
  mmio_fit : mmio.length ≤ maximumMmioRanges
  deriving DecidableEq

namespace HardwareAuthority

def none : HardwareAuthority := ⟨[], [], .none, by decide, by decide⟩

def permitsIo (authority : HardwareAuthority) (port : UInt16) (byteWidth : UInt8) : Bool :=
  authority.ioPorts.any fun range => range.contains port byteWidth

def permitsMmio (authority : HardwareAuthority) (address length : UInt64) (access : MmioAccess) :
    Bool :=
  authority.mmio.any fun range => range.contains address length access

def permitsDma (authority : HardwareAuthority) (iommuDomain : UInt64) (generation : UInt32)
    (requesterId : UInt16) : Bool :=
  match authority.dma with
  | some grant => grant.iommuDomain == iommuDomain && grant.generation == generation &&
    grant.requesterId == requesterId
  | .none => false

def isEmpty (authority : HardwareAuthority) : Bool :=
  authority.ioPorts.isEmpty && authority.mmio.isEmpty && authority.dma.isNone

/-- Two DMA grants are for one IOMMU domain or for one requester. -/
def dmaConflict : Option DmaGrant → Option DmaGrant → Bool
  | some left, some right =>
    left.iommuDomain == right.iommuDomain || left.requesterId == right.requesterId
  | _, _ => false

def conflictsWith (authority other : HardwareAuthority) : Bool :=
  (authority.ioPorts.any fun left => other.ioPorts.any fun right => left.overlaps right) ||
    (authority.mmio.any fun left => other.mmio.any fun right => left.overlaps right) ||
    dmaConflict authority.dma other.dma

end HardwareAuthority

/-! ## Domains -/

structure DomainDescriptor where
  role : DomainRole
  addressSpaceRoot : UInt64
  authority : HardwareAuthority
  deriving DecidableEq

def DomainDescriptor.validate (descriptor : DomainDescriptor) : Except AuthorityError Unit :=
  if !validPageTableRoot descriptor.addressSpaceRoot then .error .invalidAddressSpaceRoot
  else
    match descriptor.role with
    | .nativeHardwareCell =>
      if descriptor.authority.isEmpty then .error .hardwareCellHasNoAuthority else .ok ()
    | .personalityTranslator | .userProcess =>
      if !descriptor.authority.isEmpty then .error .hardwareAuthorityForbidden else .ok ()

namespace DomainDescriptor

variable (descriptor : DomainDescriptor)

/-- What `authorize_io` asks of its caller's descriptor. -/
def allowsIo (port : UInt16) (byteWidth : UInt8) : Bool :=
  descriptor.role == .nativeHardwareCell && descriptor.authority.permitsIo port byteWidth

/-- What `authorize_mmio` asks. -/
def allowsMmio (address length : UInt64) (access : MmioAccess) : Bool :=
  descriptor.role == .nativeHardwareCell && descriptor.authority.permitsMmio address length access

/-- What `authorize_dma` asks. -/
def allowsDma (iommuDomain : UInt64) (generation : UInt32) (requesterId : UInt16) : Bool :=
  descriptor.role == .nativeHardwareCell &&
    descriptor.authority.permitsDma iommuDomain generation requesterId

end DomainDescriptor

/-- What an occupied slot of the registry has. -/
structure DomainEntry where
  executionReferences : UInt32
  descriptor : DomainDescriptor
  deriving DecidableEq

structure DomainRegistry where
  kernelAddressSpaceRoot : UInt64
  slots : Table DomainEntry
  live : Nat
  deriving DecidableEq

namespace DomainRegistry

def new (capacity : Nat) (kernelAddressSpaceRoot : UInt64) :
    Except AuthorityError DomainRegistry :=
  if capacity = 0 ∨ capacity > 0xffff + 1 then .error .domainCapacity
  else if !validPageTableRoot kernelAddressSpaceRoot then .error .invalidAddressSpaceRoot
  else .ok { kernelAddressSpaceRoot, slots := empty DomainEntry capacity, live := 0 }

/-- A live domain has the address space already, or the kernel has it. -/
def sharesAddressSpace (registry : DomainRegistry) (root : UInt64) : Bool :=
  root == registry.kernelAddressSpaceRoot ||
    (values registry.slots).any fun entry => entry.descriptor.addressSpaceRoot == root

/-- A live hardware cell has some of the hardware already. -/
def conflicts (registry : DomainRegistry) (descriptor : DomainDescriptor) : Bool :=
  descriptor.role == .nativeHardwareCell &&
    (values registry.slots).any fun entry => entry.descriptor.role == .nativeHardwareCell &&
      entry.descriptor.authority.conflictsWith descriptor.authority

/-- The slot that is found can be used once more, so that the source's `GenerationExhausted` does
not come up here. -/
def register (descriptor : DomainDescriptor) : EStateM AuthorityError DomainRegistry Handle := do
  propagate descriptor.validate
  let registry ← get
  refuse (registry.sharesAddressSpace descriptor.addressSpaceRoot) .sharedAddressSpace
  refuse (registry.conflicts descriptor) .hardwareAuthorityConflict
  let handle ← orThrow (vacancy registry.slots) .domainCapacity
  set { registry with
    slots := fill registry.slots handle { executionReferences := 0, descriptor }
    live := registry.live + 1 }
  return handle

def descriptor (registry : DomainRegistry) (handle : Handle) :
    Except AuthorityError DomainDescriptor :=
  match lookup registry.slots handle with
  | some entry => .ok entry.descriptor
  | none => .error .staleDomain

def revoke (handle : Handle) : EStateM AuthorityError DomainRegistry Unit := do
  let registry ← get
  let entry ← orThrow (lookup registry.slots handle) .staleDomain
  refuse (entry.executionReferences != 0) .domainBusy
  set { registry with slots := vacate registry.slots handle, live := registry.live - 1 }

def retainExecution (handle : Handle) : EStateM AuthorityError DomainRegistry Unit := do
  let registry ← get
  let entry ← orThrow (lookup registry.slots handle) .staleDomain
  refuse (entry.executionReferences != 0) .domainBusy
  set { registry with
    slots := fill registry.slots handle
      { entry with executionReferences := entry.executionReferences + 1 } }

def releaseExecution (handle : Handle) : EStateM AuthorityError DomainRegistry Unit := do
  let registry ← get
  let entry ← orThrow (lookup registry.slots handle) .staleDomain
  refuse (entry.executionReferences == 0) .corruptExecutionReference
  set { registry with
    slots := fill registry.slots handle
      { entry with executionReferences := entry.executionReferences - 1 } }

/-! ## Calls -/

inductive Call where
  | register (descriptor : DomainDescriptor)
  | revoke (handle : Handle)
  | retainExecution (handle : Handle)
  | releaseExecution (handle : Handle)

/-- A call as an action; the result is the handle of a new domain. -/
def Call.run : Call → EStateM AuthorityError DomainRegistry (Option Handle)
  | .register descriptor => some <$> DomainRegistry.register descriptor
  | .revoke handle => (fun _ => none) <$> DomainRegistry.revoke handle
  | .retainExecution handle => (fun _ => none) <$> DomainRegistry.retainExecution handle
  | .releaseExecution handle => (fun _ => none) <$> DomainRegistry.releaseExecution handle

/-- What a call answers, and the registry it leaves. -/
def perform (registry : DomainRegistry) (call : Call) :
    Except AuthorityError (Option Handle) × DomainRegistry :=
  match call.run registry with
  | .ok reply next => (.ok reply, next)
  | .error e next => (.error e, next)

end DomainRegistry

end Sisyphus.Ring
