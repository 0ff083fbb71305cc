import Sisyphus.Foundation.Bitmap
import Sisyphus.Foundation.Run
import Sisyphus.Foundation.Words

/-!
# The bitmap frame allocator

A model of `core/abyss`'s `frame.rs`, with the memory map of `memory.rs` and the reservations of
`reservation.rs` that it reads.  The allocator hands out 4 KiB frames of physical memory.  It keeps
two bitmaps, with a bit for each frame below the managed limit: `allocated` for the frames that may
not be handed out, `reserved` for those that may not come back either.  Both start out full, and
each usable region of the firmware's map opens up the frames inside it.

A physical address is a 64-bit word and so is a `usize`.  Frame numbers are natural numbers, for
none of them comes near 2⁵².  A loop over `first..last` is a fold over that range.
-/

set_option autoImplicit false

namespace Sisyphus.Abyss

open Bitmap Words

def pageSize : UInt64 := 4096

/-! ## Memory maps and reservations -/

inductive MemoryRegionKind where
  | usable
  | reserved
  | acpiReclaimable
  | acpiNonVolatile
  | defective
  deriving DecidableEq

/-- The bytes from `start` up to `stop`, which the source calls `end`. -/
structure MemoryRegion where
  start : UInt64
  stop : UInt64
  kind : MemoryRegionKind
  deriving DecidableEq

def maxMemoryRegions : Nat := 128

/-- A memory map as `push` builds it: regions in any order, which may overlap. -/
structure MemoryMap where
  regions : List MemoryRegion
  fits : regions.length ≤ maxMemoryRegions
  valid : ∀ region ∈ regions, region.start < region.stop

/-- A reservation, without the kind, which nothing reads. -/
structure Reservation where
  start : UInt64
  stop : UInt64

/-- A table of reservations as its `push` builds it. -/
structure ReservationTable (capacity : Nat) where
  entries : List Reservation
  fits : entries.length ≤ capacity
  valid : ∀ entry ∈ entries, entry.start < entry.stop

/-! ## Frame numbers -/

/-- `align_up` for frame numbers, as 64-bit words. -/
def alignUpIndex (value alignment : Nat) : Option Nat :=
  (alignUp value.toUInt64 alignment.toUInt64).map UInt64.toNat

inductive FrameAllocatorError where
  | addressOverflow
  | storageTooSmall
  | invalidFrameCount
  | unalignedFrame
  | frameOutOfRange
  | reservedFrame
  | doubleFree
  deriving DecidableEq

/-- The number of frames that have a byte below the limit. -/
def frameCount (maximumAddress : UInt64) : Except FrameAllocatorError Nat :=
  if maximumAddress.toNat + 4095 < 2 ^ 64 then .ok ((maximumAddress + 4095) / pageSize).toNat
  else .error .addressOverflow

/-! ## The allocator -/

structure BitmapFrameAllocator where
  allocated : List UInt64
  reserved : List UInt64
  frameCount : Nat
  nextSearch : Nat
  freeFrames : Nat
  deriving DecidableEq

namespace BitmapFrameAllocator

variable (a : BitmapFrameAllocator)

def isAllocated (frame : Nat) : Bool := bitIsSet a.allocated frame

def isReserved (frame : Nat) : Bool := bitIsSet a.reserved frame

def setAllocated (frame : Nat) (value : Bool) : BitmapFrameAllocator :=
  { a with allocated := setBit a.allocated frame value }

def setReserved (frame : Nat) (value : Bool) : BitmapFrameAllocator :=
  { a with reserved := setBit a.reserved frame value }

/-- `first..last`. -/
def frames (first last : Nat) : List Nat := List.range' first (last - first)

/-- What `mark_usable` does to a frame. -/
def openFrame (frame : Nat) : BitmapFrameAllocator :=
  ({ a with freeFrames := if a.isAllocated frame then a.freeFrames + 1 else a.freeFrames
    }.setAllocated frame false).setReserved frame false

def markUsable (start stop : UInt64) : BitmapFrameAllocator :=
  if start ≥ stop then a
  else
    let first := (start / pageSize).toNat
    let last := min (stop / pageSize).toNat a.frameCount
    (frames (min first a.frameCount) last).foldl openFrame a

/-- What `new` does with a region of the map. -/
def addRegion (maximumAddress : UInt64) (region : MemoryRegion) : BitmapFrameAllocator :=
  if region.kind ≠ .usable then a
  else
    match alignUp region.start pageSize with
    | none => a
    | some start => a.markUsable start (alignDown (min region.stop maximumAddress) pageSize)

/-- Every frame allocated and reserved. -/
def full (frameCount : Nat) : BitmapFrameAllocator where
  allocated := List.replicate (wordsFor frameCount) 0xffffffffffffffff
  reserved := List.replicate (wordsFor frameCount) 0xffffffffffffffff
  frameCount := frameCount
  nextSearch := 0
  freeFrames := 0

/-- `new`, in a storage of so many words. -/
def new (map : MemoryMap) (maximumAddress : UInt64) (storage : Nat) :
    Except FrameAllocatorError BitmapFrameAllocator := do
  let frameCount ← Abyss.frameCount maximumAddress
  if storage < wordsFor frameCount * 2 then throw .storageTooSmall
  return map.regions.foldl (fun a region => a.addRegion maximumAddress region) (full frameCount)

/-- What `reserve_range` does to a frame. -/
def reserveFrame (frame : Nat) : BitmapFrameAllocator :=
  ({ a with freeFrames := if a.isAllocated frame then a.freeFrames else a.freeFrames - 1
    }.setAllocated frame true).setReserved frame true

def reserveRange (start stop : UInt64) : BitmapFrameAllocator :=
  if start ≥ stop then a
  else
    let first := (start / pageSize).toNat
    match alignUp stop pageSize with
    | none => a
    | some roundedEnd =>
      let last := min (roundedEnd / pageSize).toNat a.frameCount
      (frames (min first a.frameCount) last).foldl reserveFrame a

def applyReservations {capacity : Nat} (reservations : ReservationTable capacity) :
    BitmapFrameAllocator :=
  reservations.entries.foldl (fun a entry => a.reserveRange entry.start entry.stop) a

/-- The address of a frame. -/
def address (frame : Nat) : UInt64 := frame.toUInt64 * pageSize

def allocate : Option UInt64 × BitmapFrameAllocator :=
  if a.freeFrames = 0 then (none, a)
  else
    match (List.range a.frameCount).find? fun offset =>
        !a.isAllocated ((a.nextSearch + offset) % a.frameCount) with
    | some offset =>
      let frame := (a.nextSearch + offset) % a.frameCount
      (some (address frame), { a.setAllocated frame true with
        freeFrames := a.freeFrames - 1
        nextSearch := (frame + 1) % a.frameCount })
    | none => (none, a)

/-- The loop of `find_contiguous`.  The candidate grows, so that it ends within so many turns. -/
def findContiguousFrom (frameCount alignmentFrames : Nat) : Nat → Nat → Option Nat
  | 0, _ => none
  | turns + 1, candidate =>
    if candidate + frameCount < 2 ^ 64 ∧ candidate + frameCount ≤ a.frameCount then
      match (frames candidate (candidate + frameCount)).find? a.isAllocated with
      | some occupied =>
        match alignUpIndex (occupied + 1) alignmentFrames with
        | some candidate => findContiguousFrom frameCount alignmentFrames turns candidate
        | none => none
      | none => some candidate
    else none

def findContiguous (searchStart frameCount alignmentFrames : Nat) : Option Nat := do
  let candidate ← alignUpIndex searchStart alignmentFrames
  a.findContiguousFrom frameCount alignmentFrames (a.frameCount + 1) candidate

def allocateContiguous (frameCount alignmentFrames : UInt64) :
    Option UInt64 × BitmapFrameAllocator :=
  let count := frameCount.toNat
  let alignment := alignmentFrames.toNat
  if count = 0 ∨ alignment = 0 ∨ !isPowerOfTwo alignmentFrames ∨ a.freeFrames < count then (none, a)
  else
    match (a.findContiguous a.nextSearch count alignment).or (a.findContiguous 0 count
      alignment) with
    | none => (none, a)
    | some first =>
      let b := (frames first (first + count)).foldl (fun b frame => b.setAllocated frame true) a
      (some (address first), { b with
        freeFrames := b.freeFrames - count
        nextSearch := (first + count) % a.frameCount })

/-- What is wrong with a frame that is to be released. -/
def releaseFault (frame : Nat) : Option FrameAllocatorError :=
  if a.isReserved frame then some .reservedFrame
  else if !a.isAllocated frame then some .doubleFree
  else none

def deallocateContiguous (firstFrame frameCount : UInt64) :
    Except FrameAllocatorError Unit × BitmapFrameAllocator :=
  if frameCount = 0 then (.error .invalidFrameCount, a)
  else if firstFrame &&& (pageSize - 1) ≠ 0 then (.error .unalignedFrame, a)
  else
    let first := (firstFrame / pageSize).toNat
    let stop := first + frameCount.toNat
    if stop ≥ 2 ^ 64 ∨ stop > a.frameCount then (.error .frameOutOfRange, a)
    else
      match (frames first stop).findSome? a.releaseFault with
      | some fault => (.error fault, a)
      | none =>
        let b := (frames first stop).foldl (fun b frame => b.setAllocated frame false) a
        (.ok (), { b with freeFrames := b.freeFrames + frameCount.toNat, nextSearch := first })

def deallocate (frame : UInt64) : Except FrameAllocatorError Unit × BitmapFrameAllocator :=
  a.deallocateContiguous frame 1

end BitmapFrameAllocator

end Sisyphus.Abyss
