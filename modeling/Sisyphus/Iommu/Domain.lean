import Sisyphus.Iommu.Leases

/-!
# A domain of DMA mappings

A model of `hw/iommu.rs`: the mappings that one isolated device has.  A mapping is kept in three
places, a record here, a lease of its device addresses in the ledger, and the span that the
remapping backend has mapped.  A map call reserves on a copy of the ledger, asks the backend, and
enters copy and record only if the backend agreed.

The backend is any type with the four calls of the source's trait, which may change it.  A status is
the 32-bit code of the driver interface.  The PCI address of the device, which is only handed on to
the backend, is left out.  `usize` is 64 bits wide.
-/

set_option autoImplicit false

namespace Sisyphus.Iommu

open Fallible Slots

abbrev Status := Int32

def statusOk : Status := 0

def statusInvalidArgument : Status := -1

def statusUnsupported : Status := -2

def statusBusy : Status := -4

def statusNotFound : Status := -5

def statusIoError : Status := -6

structure DmaAccess where
  bits : UInt8

namespace DmaAccess

def read : DmaAccess := ⟨1⟩

def write : DmaAccess := ⟨2⟩

def isValid (access : DmaAccess) : Bool := access.bits != 0 && access.bits &&& ~~~3 == 0

end DmaAccess

structure DmaMappingInfo where
  deviceAddress : UInt64
  physicalAddress : UInt64
  length : UInt64
  access : DmaAccess

class DmaRemappingBackend (B : Type) where
  isolateDevice : B → Except Status UInt64 × B
  map (domain deviceAddress physicalAddress length : UInt64) (access : DmaAccess) : B → Status × B
  unmap (domain deviceAddress length : UInt64) : B → Status × B
  releaseDomain (domain : UInt64) : B → Status × B

structure MappingRecord where
  lease : IovaLease
  physicalAddress : UInt64
  length : UInt64
  access : DmaAccess
  hardwareMapped : Bool

def maximumDomainMappings : Nat := 128

def maximumReservedIovaRanges : Nat := 16

structure IommuDomain (B : Type) where
  backend : B
  handle : UInt64
  active : Bool
  poisoned : Bool
  iovas : IovaLedger
  mappings : Table MappingRecord
  mappingCount : Nat

def rangesOverlap (leftStart leftSize rightStart rightSize : UInt64) : Bool :=
  if leftStart.toNat + leftSize.toNat < 2 ^ 64 ∧ rightStart.toNat + rightSize.toNat < 2 ^ 64 then
    decide (leftStart < rightStart + rightSize) && decide (rightStart < leftStart + leftSize)
  else true

def iovaRuntimeStatus : IovaError → Status
  | .invalidRange | .invalidRequest => statusInvalidArgument
  | .leaseCapacity | .addressSpaceExhausted => statusBusy
  | .exactRangeUnavailable => statusBusy
  | .staleLease => statusNotFound
  | .invalidCapacity | .reservedCapacity | .reservedOutsideAperture | .overlappingReservedRanges
  | .batchOutputMismatch => statusIoError

namespace IommuDomain

variable {B : Type}

/-- A new domain, and the backend in any case. -/
def isolateDevice [DmaRemappingBackend B] (backend : B) (aperture : ValidRange)
    (reserved : List ValidRange) : Except (Status × B) (IommuDomain B) :=
  match IovaLedger.new maximumDomainMappings maximumReservedIovaRanges aperture reserved with
  | .error _ => .error (statusInvalidArgument, backend)
  | .ok iovas =>
    match DmaRemappingBackend.isolateDevice backend with
    | (.error status, backend) => .error (status, backend)
    | (.ok handle, backend) =>
      if handle = 0 then .error (statusUnsupported, backend)
      else .ok {
        backend, handle, active := true, poisoned := false, iovas
        mappings := empty MappingRecord maximumDomainMappings
        mappingCount := 0 }

def mappingInfo (domain : IommuDomain B) (mapping : Handle) : Option DmaMappingInfo :=
  match lookup domain.mappings mapping with
  | none => none
  | some record =>
    match domain.iovas.range record.lease with
    | .error _ => none
    | .ok range =>
      if range.length = record.length then
        some ⟨range.start, record.physicalAddress, record.length, record.access⟩
      else none

/-! ## Steps of the calls -/

/-- `self.poisoned = true; return Err(STATUS_IO_ERROR)`. -/
def poison {α : Type} : EStateM Status (IommuDomain B) α := fun domain =>
  .error statusIoError { domain with poisoned := true }

def poisonIf (cond : Bool) : EStateM Status (IommuDomain B) Unit :=
  if cond then poison else pure ()

/-- Reserves on a copy of the ledger. -/
def onCopy (x : EStateM IovaError IovaLedger IovaLease) :
    EStateM Status (IommuDomain B) (IovaLease × IovaLedger) := fun domain =>
  match x domain.iovas with
  | .ok lease candidate => .ok (lease, candidate) domain
  | .error e _ => .error (iovaRuntimeStatus e) domain

/-- The range of a lease, which has to be as long as the mapping. -/
def leasedRange (iovas : IovaLedger) (lease : IovaLease) (size : UInt64) :
    EStateM Status (IommuDomain B) IovaRange :=
  match iovas.range lease with
  | .ok range => if range.length = size then pure range else poison
  | .error _ => poison

/-- Asks the backend, and returns its status if that is a failure. -/
def call (request : UInt64 → B → Status × B) : EStateM Status (IommuDomain B) Unit := fun domain =>
  let (status, backend) := request domain.handle domain.backend
  if status = statusOk then .ok () { domain with backend }
  else .error status { domain with backend }

/-- Enters a mapping that the backend has made. -/
def enterRecord (domain : IommuDomain B) (mapping : Handle) (candidate : IovaLedger)
    (record : MappingRecord) : IommuDomain B :=
  { domain with
    iovas := candidate
    mappings := fill domain.mappings mapping record
    mappingCount := domain.mappingCount + 1 }

/-- Drops a mapping that the backend has unmade. -/
def dropRecord (domain : IommuDomain B) (mapping : Handle) (iovas : IovaLedger) : IommuDomain B :=
  { domain with
    iovas
    mappings := vacate domain.mappings mapping
    mappingCount := domain.mappingCount - 1 }

/-! ## Calls -/

variable [DmaRemappingBackend B]

def mapDmaAligned (physicalAddress size alignmentPages : UInt64) (access : DmaAccess) :
    EStateM Status (IommuDomain B) Handle := do
  let domain ← get
  refuse (!domain.active) statusInvalidArgument
  refuse domain.poisoned statusIoError
  refuse (size == 0 || physicalAddress % iovaPageSize != 0 || size % iovaPageSize != 0 ||
    decide (2 ^ 64 ≤ physicalAddress.toNat + size.toNat) || !access.isValid) statusInvalidArgument
  refuse ((values domain.mappings).any fun record =>
    rangesOverlap record.physicalAddress record.length physicalAddress size) statusBusy
  let slot ← orThrow (vacancy domain.mappings) statusBusy
  let (lease, candidate) ← onCopy (IovaLedger.reserveAligned (size / iovaPageSize) alignmentPages)
  let range ← leasedRange candidate lease size
  call fun handle => DmaRemappingBackend.map handle range.start physicalAddress size access
  modify fun domain => domain.enterRecord slot candidate
    { lease, physicalAddress, length := size, access, hardwareMapped := true }
  return slot

/-- A mapping is in the way of one at a chosen device address. -/
def obstructs (iovas : IovaLedger) (deviceAddress physicalAddress size : UInt64)
    (record : MappingRecord) : Bool :=
  rangesOverlap record.physicalAddress record.length physicalAddress size ||
    match iovas.range record.lease with
    | .ok range => rangesOverlap range.start record.length deviceAddress size
    | .error _ => true

/-- `IovaRange::new`, whose ranges are all that a ledger is asked for. -/
def newRange (start length : UInt64) : Except IovaError ValidRange :=
  match h : IovaRange.new start length with
  | .ok range => .ok ⟨range, (IovaRange.valid_of_new h).1⟩
  | .error e => .error e

def mapDmaAt (deviceAddress physicalAddress size : UInt64) (access : DmaAccess) :
    EStateM Status (IommuDomain B) Handle := do
  let domain ← get
  refuse (!domain.active || domain.poisoned)
    (if domain.poisoned then statusIoError else statusInvalidArgument)
  refuse (size == 0 || deviceAddress % iovaPageSize != 0 || physicalAddress % iovaPageSize != 0 ||
    size % iovaPageSize != 0 || decide (2 ^ 64 ≤ deviceAddress.toNat + size.toNat) ||
    decide (2 ^ 64 ≤ physicalAddress.toNat + size.toNat) || !access.isValid) statusInvalidArgument
  refuse ((values domain.mappings).any fun record =>
    obstructs domain.iovas deviceAddress physicalAddress size record) statusBusy
  let slot ← orThrow (vacancy domain.mappings) statusBusy
  let range ← propagate ((newRange deviceAddress size).mapError iovaRuntimeStatus)
  let (lease, candidate) ← onCopy (IovaLedger.reserveExact range)
  call fun handle => DmaRemappingBackend.map handle deviceAddress physicalAddress size access
  modify fun domain => domain.enterRecord slot candidate
    { lease, physicalAddress, length := size, access, hardwareMapped := true }
  return slot

/-- Returns unit for `STATUS_OK` and throws any other status. -/
def revokeDma (mapping : Handle) : EStateM Status (IommuDomain B) Unit := do
  let domain ← get
  refuse (!domain.active) statusInvalidArgument
  refuse domain.poisoned statusIoError
  let record ← orThrow (lookup domain.mappings mapping) statusNotFound
  let range ← leasedRange domain.iovas record.lease record.length
  poisonIf (!record.hardwareMapped)
  call fun handle => DmaRemappingBackend.unmap handle range.start record.length
  match IovaLedger.release record.lease domain.iovas with
  | .error _ _ =>
    modify fun domain => { domain with
      mappings := fill domain.mappings mapping { record with hardwareMapped := false } }
    poison
  | .ok _ iovas => modify fun domain => domain.dropRecord mapping iovas

/-- A domain that has been released is not used any more, and one that has not is given back. -/
def release : EStateM Status (IommuDomain B) Unit := do
  let domain ← get
  refuse domain.poisoned statusIoError
  refuse (domain.mappingCount != 0) statusBusy
  poisonIf (domain.iovas.activeCount != 0)
  call DmaRemappingBackend.releaseDomain
  modify fun domain => { domain with active := false }

/-- The calls on a domain. -/
inductive Call where
  | mapDmaAligned (physicalAddress size alignmentPages : UInt64) (access : DmaAccess)
  | mapDmaAt (deviceAddress physicalAddress size : UInt64) (access : DmaAccess)
  | revokeDma (mapping : Handle)
  | release

/-- A call as an action; the result is the handle of a new mapping. -/
def Call.run : Call → EStateM Status (IommuDomain B) (Option Handle)
  | .mapDmaAligned physicalAddress size alignmentPages access =>
    some <$> IommuDomain.mapDmaAligned physicalAddress size alignmentPages access
  | .mapDmaAt deviceAddress physicalAddress size access =>
    some <$> IommuDomain.mapDmaAt deviceAddress physicalAddress size access
  | .revokeDma mapping => (fun _ => none) <$> IommuDomain.revokeDma mapping
  | .release => (fun _ => none) <$> IommuDomain.release

/-- What a call answers, and the domain it leaves. -/
def perform (domain : IommuDomain B) (call : Call) :
    Except Status (Option Handle) × IommuDomain B :=
  match call.run domain with
  | .ok reply next => (.ok reply, next)
  | .error status next => (.error status, next)

end IommuDomain

end Sisyphus.Iommu
