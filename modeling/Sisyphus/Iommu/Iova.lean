import Sisyphus.Foundation.Ensures
import Sisyphus.Foundation.Run
import Sisyphus.Foundation.Slots
import Sisyphus.Foundation.Words

/-!
# The ledger of I/O virtual addresses

A model of `hw/iova.rs`.  A domain has an aperture of device addresses with some reserved windows
in it, and leases ranges of the rest, either at the first address that fits or at one that the
caller chooses.  A lease names a slot of a fixed table and the slot's generation.

The table is a `Slots.Table`, in which an inactive slot has no range; the source keeps an empty
range and a flag.  A lease is the 64-bit word that the source packs.
-/

set_option autoImplicit false

namespace Sisyphus.Iommu

open Fallible Slots Words

def iovaPageSize : UInt64 := 4096

inductive IovaError where
  | invalidRange
  | invalidRequest
  | invalidCapacity
  | reservedCapacity
  | reservedOutsideAperture
  | overlappingReservedRanges
  | leaseCapacity
  | addressSpaceExhausted
  | exactRangeUnavailable
  | staleLease
  | batchOutputMismatch
  deriving DecidableEq

/-! ## Ranges -/

/-- The addresses from `start` up to `stop`, which the source calls `end`. -/
structure IovaRange where
  start : UInt64
  stop : UInt64
  deriving DecidableEq

namespace IovaRange

def new (start length : UInt64) : Except IovaError IovaRange :=
  if start.toNat + length.toNat < 2 ^ 64 then
    if length = 0 ∨ start % iovaPageSize ≠ 0 ∨ length % iovaPageSize ≠ 0 ∨
        (start + length) % iovaPageSize ≠ 0 then .error .invalidRange
    else .ok ⟨start, start + length⟩
  else .error .invalidRange

def length (r : IovaRange) : UInt64 := r.stop - r.start

def contains (r other : IovaRange) : Bool :=
  decide (r.start ≤ other.start) && decide (other.stop ≤ r.stop)

def overlaps (r other : IovaRange) : Bool :=
  decide (r.start < other.stop) && decide (other.start < r.stop)

/-- What `new` makes sure of. -/
structure Valid (r : IovaRange) : Prop where
  nonempty : r.start.toNat < r.stop.toNat
  start_aligned : r.start.toNat % 4096 = 0
  stop_aligned : r.stop.toNat % 4096 = 0

end IovaRange

/-- A range as callers have them, who can only make them by `new`. -/
abbrev ValidRange := { r : IovaRange // r.Valid }

/-! ## Leases -/

structure IovaLease where
  raw : UInt64
  deriving DecidableEq

namespace IovaLease

/-- The lease of a slot.  The lower half is never zero. -/
def new (h : Handle) : IovaLease := ⟨pack h.generation (h.slot.toUInt64 + 1)⟩

def slot (lease : IovaLease) : Option Nat :=
  if lease.raw.toUInt32 = 0 then none else some (lease.raw.toUInt32 - 1).toNat

def generation (lease : IovaLease) : UInt32 := (lease.raw >>> 32).toUInt32

/-- What a lease says, if it can be one. -/
def handle (lease : IovaLease) : Option Handle :=
  lease.slot.map fun slot => ⟨slot, lease.generation⟩

end IovaLease

/-- A request for so many pages at a multiple of so many, as `new` lets it pass. -/
structure IovaRequest where
  pageCount : UInt64
  alignmentPages : UInt64
  nonempty : pageCount ≠ 0
  power : isPowerOfTwo alignmentPages = true
  length_fits : pageCount.toNat * 4096 < 2 ^ 64
  alignment_fits : alignmentPages.toNat * 4096 < 2 ^ 64

def IovaRequest.new (pageCount alignmentPages : UInt64) : Except IovaError IovaRequest :=
  if hcount : pageCount = 0 then .error .invalidRequest
  else if hpower : isPowerOfTwo alignmentPages = true then
    if hfits : pageCount.toNat * 4096 < 2 ^ 64 ∧ alignmentPages.toNat * 4096 < 2 ^ 64 then
      .ok ⟨pageCount, alignmentPages, hcount, hpower, hfits.1, hfits.2⟩
    else .error .invalidRequest
  else .error .invalidRequest

/-! ## The ledger -/

structure IovaLedger where
  aperture : IovaRange
  reserved : List IovaRange
  leases : Table IovaRange
  activeCount : Nat
  deriving DecidableEq

namespace IovaLedger

variable (ledger : IovaLedger)

/-- The reserved windows stay sorted. -/
def insertReserved (range : IovaRange) : Except IovaError IovaLedger := do
  if !ledger.aperture.contains range then throw .reservedOutsideAperture
  if ledger.reserved.any fun existing => existing.overlaps range then
    throw .overlappingReservedRanges
  let position := (ledger.reserved.findIdx? fun existing => decide (range.start <
    existing.start)).getD ledger.reserved.length
  return { ledger with reserved := ledger.reserved.insertIdx position range }

/-- A ledger with so many slots, and room for so many reserved windows. -/
def new (slots room : Nat) (aperture : ValidRange) (reserved : List ValidRange) :
    Except IovaError IovaLedger := do
  if slots = 0 ∨ slots > 0xffffffff then throw .invalidCapacity
  if reserved.length > room then throw .reservedCapacity
  reserved.foldlM (fun ledger (range : ValidRange) => ledger.insertReserved range.1)
    { aperture, reserved := [], leases := empty IovaRange slots, activeCount := 0 }

/-- What a range may not overlap. -/
def blockers : List IovaRange := ledger.reserved ++ values ledger.leases

/-- The last end of a blocker that is in the way, or zero. -/
def advanceTo (blockers : List IovaRange) (candidate : IovaRange) : UInt64 :=
  blockers.foldl (fun advanceTo blocker =>
    if candidate.overlaps blocker then max advanceTo blocker.stop else advanceTo) 0

/-- The loop of `first_fit`.  Every turn leaves a blocker behind, so that it ends within so many
turns. -/
def firstFitFrom (length alignment : UInt64) : Nat → UInt64 → Except IovaError IovaRange
  | 0, _ => .error .addressSpaceExhausted
  | turns + 1, start =>
    if start.toNat + length.toNat < 2 ^ 64 ∧ start + length ≤ ledger.aperture.stop then
      let candidate : IovaRange := ⟨start, start + length⟩
      let next := advanceTo ledger.blockers candidate
      if next = 0 then .ok candidate
      else
        match alignUp next alignment with
        | none => .error .addressSpaceExhausted
        | some start => firstFitFrom length alignment turns start
    else .error .addressSpaceExhausted

def firstFit (request : IovaRequest) : Except IovaError IovaRange :=
  let length := request.pageCount * iovaPageSize
  let alignment := request.alignmentPages * iovaPageSize
  match alignUp ledger.aperture.start alignment with
  | none => .error .addressSpaceExhausted
  | some start => ledger.firstFitFrom length alignment (ledger.blockers.length + 1) start

/-- Takes a slot for a range. -/
def enter (h : Handle) (range : IovaRange) : IovaLedger :=
  { ledger with leases := fill ledger.leases h range, activeCount := ledger.activeCount + 1 }

def reserve (request : IovaRequest) : EStateM IovaError IovaLedger IovaLease := do
  let ledger ← get
  let h ← orThrow (vacancy ledger.leases) .leaseCapacity
  let range ← propagate (ledger.firstFit request)
  set (ledger.enter h range)
  return .new h

def reserveAligned (pageCount alignmentPages : UInt64) :
    EStateM IovaError IovaLedger IovaLease := do
  let request ← propagate (IovaRequest.new pageCount alignmentPages)
  reserve request

/-- The range cannot be had as it is. -/
def unavailable (range : IovaRange) : Bool :=
  !ledger.aperture.contains range ||
    ledger.reserved.any (fun blocker => blocker.overlaps range) ||
    (values ledger.leases).any fun blocker => blocker.overlaps range

def reserveExact (range : ValidRange) : EStateM IovaError IovaLedger IovaLease := do
  let ledger ← get
  refuse (ledger.unavailable range) .exactRangeUnavailable
  let h ← orThrow (vacancy ledger.leases) .leaseCapacity
  set (ledger.enter h range)
  return .new h

/-- The requests are tried out on a copy, which replaces the ledger if all of them succeed.  The
result is what is copied into `output`, a slice of the given length. -/
def reserveMany (requests : List IovaRequest) (outputLength : Nat) :
    EStateM IovaError IovaLedger (List IovaLease) := do
  let ledger ← get
  refuse (requests.isEmpty || requests.length != outputLength ||
    decide (requests.length > ledger.leases.length)) .batchOutputMismatch
  match requests.mapM reserve ledger with
  | .ok staged candidate =>
    set candidate
    return staged
  | .error e _ => throw e

def range (lease : IovaLease) : Except IovaError IovaRange :=
  match lease.handle.bind (lookup ledger.leases) with
  | some range => .ok range
  | none => .error .staleLease

def release (lease : IovaLease) : EStateM IovaError IovaLedger IovaRange := do
  let ledger ← get
  let h ← orThrow lease.handle .staleLease
  let range ← orThrow (lookup ledger.leases h) .staleLease
  set { ledger with leases := vacate ledger.leases h, activeCount := ledger.activeCount - 1 }
  return range

/-! ## Requests -/

/-- The calls that change a ledger. -/
inductive Call where
  | reserve (request : IovaRequest)
  | reserveExact (range : ValidRange)
  | reserveMany (requests : List IovaRequest) (outputLength : Nat)
  | release (lease : IovaLease)

inductive Reply where
  | leased (leases : List IovaLease)
  | released (range : IovaRange)
  deriving DecidableEq

/-- A call as an action. -/
def Call.run : Call → EStateM IovaError IovaLedger Reply
  | .reserve request => do return .leased [← IovaLedger.reserve request]
  | .reserveExact range => do return .leased [← IovaLedger.reserveExact range]
  | .reserveMany requests outputLength => do
    return .leased (← IovaLedger.reserveMany requests outputLength)
  | .release lease => do return .released (← IovaLedger.release lease)

/-- What a call answers, and the ledger it leaves. -/
def perform (call : Call) : Except IovaError Reply × IovaLedger :=
  match call.run ledger with
  | .ok reply next => (.ok reply, next)
  | .error e next => (.error e, next)

end IovaLedger

end Sisyphus.Iommu
