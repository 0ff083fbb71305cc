import Sisyphus.Foundation.Bytes
import Sisyphus.Abyss.Handout
import Sisyphus.Pci.Configuration

/-!
# The identity-DMA arena of an xHCI controller

A model of `xhci_dma.rs`.  An arena is a short list of regions: runs of frames from the kernel's
frame pool that a controller may address directly.  `allocate` takes the runs one after the other
and checks each against the window in which the platform allows identity DMA; a build that fails
gives back what it has (`rollbackBuild`).  `release` gives the regions back from the last to the
first, once the controller is known to be quiet.  Giving back may fail as well: the arena is then
in debt, remembers in each record how far it got, and can be asked again.

The pool is the bitmap allocator behind a lock.  `refusals` are failures from outside: a call for
which one is due fails before it gets to the allocator, so every pattern of failing calls is some
list of them.  `releases` is the list of releases that took place.
-/

set_option autoImplicit false

namespace Sisyphus.XhciDma

open Fallible Words Bytes Abyss Pci

/-! ## The frame pool -/

structure PhysicalFramePool where
  allocator : BitmapFrameAllocator
  refusals : List (Option FrameAllocatorError)
  releases : List (UInt64 × UInt64)

namespace PhysicalFramePool

def allocateContiguous (pool : PhysicalFramePool) (frameCount alignmentFrames : UInt64) :
    Option UInt64 × PhysicalFramePool :=
  match pool.refusals with
  | some _ :: rest => (none, { pool with refusals := rest })
  | due =>
    ((pool.allocator.allocateContiguous frameCount alignmentFrames).1, { pool with
      allocator := (pool.allocator.allocateContiguous frameCount alignmentFrames).2
      refusals := due.tail })

def releaseContiguous (pool : PhysicalFramePool) (firstFrame frameCount : UInt64) :
    Except FrameAllocatorError Unit × PhysicalFramePool :=
  match pool.refusals with
  | some fault :: rest => (.error fault, { pool with refusals := rest })
  | due =>
    let result := (pool.allocator.deallocateContiguous firstFrame frameCount).1
    (result, { pool with
      allocator := (pool.allocator.deallocateContiguous firstFrame frameCount).2
      refusals := due.tail
      releases :=
        if result.isOk then pool.releases ++ [(firstFrame, frameCount)] else pool.releases })

end PhysicalFramePool

/-! ## Records -/

/-- `FIXED_REGION_CAPACITY`. -/
def fixedRegionCapacity : Nat := 6

/-- `MAXIMUM_SCRATCHPAD_BUFFERS`. -/
def maximumScratchpadBuffers : UInt16 := 1023

def arenaRootDomain : UInt64 := 0x584843494152454e

/-- The fact that one requester may use physical addresses, as `establish` leaves it; without the
flags it has checked. -/
structure IdentityDmaWindow where
  device : PciAddress
  physicalStart : UInt64
  physicalEnd : UInt64
  directMapBase : UInt64
  cpuStart : UInt64
  cpuEnd : UInt64
  deviceAddressLimit : UInt64
  generation : UInt32
  proofRoot : UInt64

inductive XhciDmaPurpose where
  | dcbaa
  | commandRing
  | eventRing
  | eventRingSegmentTable
  | scratchpadPointerArray
  | scratchpadBuffers
  deriving DecidableEq

def XhciDmaPurpose.code : XhciDmaPurpose → UInt64
  | dcbaa => 1
  | commandRing => 2
  | eventRing => 3
  | eventRingSegmentTable => 4
  | scratchpadPointerArray => 5
  | scratchpadBuffers => 6

inductive XhciDmaRegionPhase where
  | empty
  | frameOwned
  | zeroed
  | ready
  | releasing
  | releaseDebt
  | released
  deriving DecidableEq

structure XhciDmaRegionRecord where
  phase : XhciDmaRegionPhase
  generation : UInt32
  purpose : XhciDmaPurpose
  device : PciAddress
  physicalStart : UInt64
  physicalEnd : UInt64
  deviceAddressStart : UInt64
  deviceAddressEnd : UInt64
  cpuStart : UInt64
  cpuEnd : UInt64
  pageCount : UInt64
  regionRoot : UInt64

/-- `matches!(phase, Empty | Released)`. -/
def XhciDmaRegionRecord.settled (record : XhciDmaRegionRecord) : Bool :=
  record.phase == .empty || record.phase == .released

def XhciDmaRegionRecord.byteLength (record : XhciDmaRegionRecord) : UInt64 :=
  record.cpuEnd - record.cpuStart

inductive XhciDmaError where
  | invalidSecret
  | scratchpadCountUnsupported (count : UInt16)
  | frameUnavailable (purpose : XhciDmaPurpose)
  | physicalRangeOverflow (purpose : XhciDmaPurpose)
  | outsideIdentityAperture (purpose : XhciDmaPurpose)
  | deviceAddressLimit (purpose : XhciDmaPurpose)
  | cpuAliasOverflow (purpose : XhciDmaPurpose)
  | regionCapacity
  | missingRegion (purpose : XhciDmaPurpose)
  | transferOutsideRegion

inductive XhciDmaReleaseFault where
  | quiescenceMismatch
  | frameAllocator (purpose : XhciDmaPurpose) (source : FrameAllocatorError)
  | alreadyReleased

structure XhciDmaReleaseReceipt where
  device : PciAddress
  generation : UInt32
  releasedPages : Nat
  releaseRoot : UInt64

structure XhciDmaQuiescence where
  device : PciAddress
  generation : UInt32
  evidenceRoot : UInt64

/-- The arena; `records` is the part of the table that is in use. -/
structure XhciDmaArena where
  identity : IdentityDmaWindow
  records : List XhciDmaRegionRecord
  scratchpadCount : UInt16
  supports64BitAddresses : Bool
  effectiveDeviceLimit : UInt64
  secret : UInt64
  arenaRoot : UInt64
  releasedPages : Nat

/-- The arena with the pool it refers to and the memory that the processor sees. -/
structure Machine where
  pool : PhysicalFramePool
  memory : Page
  arena : XhciDmaArena

/-! ## Roots -/

def mix (state word : UInt64) : UInt64 := Words.splitMix state word

def canonicalRoot (root domain : UInt64) : UInt64 := if root = 0 then domain else root

def regionRoot (secret : UInt64) (record : XhciDmaRegionRecord) : UInt64 :=
  canonicalRoot ([record.purpose.code, record.generation.toUInt64, record.device.bus.toUInt64,
    record.device.slot.toUInt64, record.device.function.toUInt64, record.physicalStart,
    record.physicalEnd, record.deviceAddressStart, record.deviceAddressEnd,
    record.pageCount].foldl mix (secret ^^^ arenaRootDomain)) arenaRootDomain

/-- `finish_arena_root`. -/
def XhciDmaArena.finishArenaRoot (arena : XhciDmaArena) : XhciDmaArena :=
  { arena with
    arenaRoot := canonicalRoot (([arena.identity.proofRoot, arena.identity.generation.toUInt64,
      arena.scratchpadCount.toUInt64, if arena.supports64BitAddresses then 1 else 0] ++
      arena.records.map (·.regionRoot)).foldl mix (arena.secret ^^^ arenaRootDomain))
      arenaRootDomain }

/-- What `release_records` reports in the end. -/
def XhciDmaArena.receipt (arena : XhciDmaArena) : XhciDmaReleaseReceipt where
  device := arena.identity.device
  generation := arena.identity.generation
  releasedPages := arena.releasedPages
  releaseRoot := canonicalRoot ([arena.identity.generation.toUInt64,
    UInt64.ofNat arena.releasedPages, arena.identity.proofRoot].foldl mix
      (arena.arenaRoot ^^^ arenaRootDomain)) arenaRootDomain

/-! ## Building -/

abbrev Build := EStateM XhciDmaError Machine

/-- The checks of `allocate_region` on a run of frames, which give the record its bounds. -/
def placeRegion (arena : XhciDmaArena) (record : XhciDmaRegionRecord) :
    Except XhciDmaError XhciDmaRegionRecord := do
  let physical := record.physicalStart
  let bytes ← okOr (checkedMul record.pageCount pageSize) (.physicalRangeOverflow record.purpose)
  let physicalEnd ← okOr (checkedAdd physical bytes) (.physicalRangeOverflow record.purpose)
  reject (physical < arena.identity.physicalStart || arena.identity.physicalEnd < physicalEnd)
    (.outsideIdentityAperture record.purpose)
  reject (arena.effectiveDeviceLimit < physicalEnd - 1) (.deviceAddressLimit record.purpose)
  let cpuStart ← okOr (checkedAdd arena.identity.directMapBase physical)
    (.cpuAliasOverflow record.purpose)
  let cpuEnd ← okOr (checkedAdd cpuStart bytes) (.cpuAliasOverflow record.purpose)
  reject (cpuStart < arena.identity.cpuStart || arena.identity.cpuEnd < cpuEnd)
    (.cpuAliasOverflow record.purpose)
  let placed := { record with
    physicalEnd, deviceAddressEnd := physicalEnd, cpuStart, cpuEnd, phase := .zeroed }
  .ok { placed with regionRoot := regionRoot arena.secret placed }

/-- The record of a run of frames that has just been taken. -/
def ownedRecord (arena : XhciDmaArena) (purpose : XhciDmaPurpose) (pageCount physical : UInt64) :
    XhciDmaRegionRecord where
  phase := .frameOwned
  generation := arena.identity.generation
  purpose := purpose
  device := arena.identity.device
  physicalStart := physical
  physicalEnd := physical
  deviceAddressStart := physical
  deviceAddressEnd := physical
  cpuStart := 0
  cpuEnd := 0
  pageCount := pageCount
  regionRoot := 0

def Machine.setRecords (m : Machine) (records : List XhciDmaRegionRecord) : Machine :=
  { m with arena := { m.arena with records } }

/-- `zero_volatile`. -/
def zeroVolatile (memory : Page) (cpuStart cpuEnd : UInt64) : Page :=
  patch memory cpuStart.toNat (List.replicate (cpuEnd - cpuStart).toNat 0)

def allocateRegion (purpose : XhciDmaPurpose) (pageCount : UInt64) : Build Unit := do
  let m ← get
  let records := m.arena.records
  refuse (fixedRegionCapacity ≤ records.length) .regionCapacity
  let taken := m.pool.allocateContiguous pageCount 1
  set { m with pool := taken.2 : Machine }
  let physical ← orThrow taken.1 (.frameUnavailable purpose)
  let record := ownedRecord m.arena purpose pageCount physical
  modify fun m => m.setRecords (records ++ [record])
  let placed ← propagate (placeRegion m.arena record)
  modify fun m => { m.setRecords (records ++ [placed]) with
    memory := zeroVolatile m.memory placed.cpuStart placed.cpuEnd }

def XhciDmaArena.region (arena : XhciDmaArena) (purpose : XhciDmaPurpose) :
    Option XhciDmaRegionRecord :=
  arena.records.find? fun record => record.purpose == purpose

def validateTransfer (record : XhciDmaRegionRecord) (offset length : UInt64) :
    Except XhciDmaError Unit := do
  let stop ← okOr (checkedAdd offset length) .transferOutsideRegion
  reject (record.byteLength < stop) .transferOutsideRegion

def volatileWriteU64 (record : XhciDmaRegionRecord) (offset value : UInt64) : Build Unit := do
  propagate (validateTransfer record offset 8)
  modify fun m => { m with
    memory := patch m.memory (record.cpuStart.toNat + offset.toNat) (leBytes 8 value.toNat) }

/-- `initialize_scratchpad_links`. -/
def linkScratchpads : Build Unit := do
  let m ← get
  let array ← orThrow (m.arena.region .scratchpadPointerArray)
    (.missingRegion .scratchpadPointerArray)
  let buffers ← orThrow (m.arena.region .scratchpadBuffers) (.missingRegion .scratchpadBuffers)
  forM (List.range m.arena.scratchpadCount.toNat) fun index => do
    let address ← orThrow
      (checkedAdd buffers.deviceAddressStart (UInt64.ofNat index * pageSize))
      (.physicalRangeOverflow .scratchpadBuffers)
    volatileWriteU64 array (UInt64.ofNat index * 8) address
  let dcbaa ← orThrow (m.arena.region .dcbaa) (.missingRegion .dcbaa)
  volatileWriteU64 dcbaa 0 array.deviceAddressStart

/-- The part of `allocate_all_regions` for a controller that asks for scratchpad buffers. -/
def allocateScratchpads (count : UInt16) : Build Unit := do
  let pointerBytes ← orThrow (checkedMul count.toUInt64 8) (.scratchpadCountUnsupported count)
  allocateRegion .scratchpadPointerArray ((pointerBytes + (pageSize - 1)) / pageSize)
  allocateRegion .scratchpadBuffers count.toUInt64
  linkScratchpads

def allocateAllRegions : Build Unit := do
  allocateRegion .dcbaa 1
  allocateRegion .commandRing 1
  allocateRegion .eventRing 1
  allocateRegion .eventRingSegmentTable 1
  let m ← get
  if m.arena.scratchpadCount ≠ 0 then allocateScratchpads m.arena.scratchpadCount
  modify fun m => m.setRecords (m.arena.records.map fun record => { record with phase := .ready })

/-! ## Giving back -/

abbrev Release := EStateM XhciDmaReleaseFault Machine

def Machine.setPhase (m : Machine) (index : Nat) (record : XhciDmaRegionRecord)
    (phase : XhciDmaRegionPhase) : Machine :=
  m.setRecords (m.arena.records.set index { record with phase })

/-- What `release_records` does after the pool has answered for a record. -/
def settleRelease (index : Nat) (record : XhciDmaRegionRecord) :
    Except FrameAllocatorError Unit → Release Unit
  | .error source => do
    modify fun m => m.setPhase index record .releaseDebt
    throw (.frameAllocator record.purpose source)
  | .ok () =>
    modify fun m =>
      let m := m.setPhase index record .released
      { m with arena := { m.arena with
          releasedPages := m.arena.releasedPages + record.pageCount.toNat } }

/-- One turn of the loop of `release_records`. -/
def releaseRecord (index : Nat) : Release Unit := do
  let m ← get
  let record ← orThrow m.arena.records[index]? .alreadyReleased
  if record.settled then pure ()
  else do
    modify fun m => m.setPhase index record .releasing
    let answer := m.pool.releaseContiguous record.physicalStart record.pageCount
    modify fun m => { m with pool := answer.2 }
    settleRelease index record answer.1

def releaseRecords : Release XhciDmaReleaseReceipt := do
  let m ← get
  refuse (m.arena.records.all (·.settled)) .alreadyReleased
  forM (List.range m.arena.records.length).reverse releaseRecord
  let m ← get
  pure m.arena.receipt

/-- `release`, and `retry` of an arena in debt. -/
def release (quiescence : XhciDmaQuiescence) : Release XhciDmaReleaseReceipt := do
  let m ← get
  refuse (quiescence.device != m.arena.identity.device ||
    quiescence.generation != m.arena.identity.generation || quiescence.evidenceRoot == 0)
    .quiescenceMismatch
  releaseRecords

/-! ## The life of an arena -/

/-- Who owns the regions: a ready arena, an arena in debt, or nobody any more.  A build that was
rolled back leaves no receipt. -/
inductive Stage where
  | ready
  | debt (fault : XhciDmaReleaseFault)
  | closed (receipt : Option XhciDmaReleaseReceipt)

structure Life where
  stage : Stage
  machine : Machine

/-- `rollback_build`, by what `release_records` answers. -/
def rolledBack : EStateM.Result XhciDmaReleaseFault Machine XhciDmaReleaseReceipt → Life
  | .ok _ m => ⟨.closed none, m⟩
  | .error fault m => ⟨.debt fault, m⟩

def rollbackBuild (m : Machine) : Life :=
  if m.arena.records = [] then ⟨.closed none, m⟩ else rolledBack (releaseRecords m)

/-- The arena that `allocate` starts with. -/
def freshArena (identity : IdentityDmaWindow) (scratchpadCount : UInt16)
    (supports64BitAddresses : Bool) (secret : UInt64) : XhciDmaArena where
  identity := identity
  records := []
  scratchpadCount := scratchpadCount
  supports64BitAddresses := supports64BitAddresses
  effectiveDeviceLimit :=
    if supports64BitAddresses then identity.deviceAddressLimit
    else min identity.deviceAddressLimit 0xffffffff
  secret := secret
  arenaRoot := 0
  releasedPages := 0

/-- The checks of `allocate` and the regions. -/
def buildRegions : Build Unit := do
  let m ← get
  refuse (m.arena.secret == 0) .invalidSecret
  refuse (maximumScratchpadBuffers < m.arena.scratchpadCount)
    (.scratchpadCountUnsupported m.arena.scratchpadCount)
  allocateAllRegions

/-- `allocate`, by how the regions came out. -/
def finishBuild : EStateM.Result XhciDmaError Machine Unit → Life
  | .ok _ m => ⟨.ready, { m with arena := m.arena.finishArenaRoot }⟩
  | .error _ m => rollbackBuild m

def allocate (pool : PhysicalFramePool) (memory : Page) (identity : IdentityDmaWindow)
    (scratchpadCount : UInt16) (supports64BitAddresses : Bool) (secret : UInt64) : Life :=
  finishBuild (buildRegions
    ⟨pool, memory, freshArena identity scratchpadCount supports64BitAddresses secret⟩)

def answered : EStateM.Result XhciDmaReleaseFault Machine XhciDmaReleaseReceipt → Life
  | .ok receipt m => ⟨.closed (some receipt), m⟩
  | .error fault m => ⟨.debt fault, m⟩

/-- The owner asks for the release, the first time or again. -/
def Life.release (life : Life) (quiescence : XhciDmaQuiescence) : Life :=
  match life.stage with
  | .closed _ => life
  | _ => answered (XhciDma.release quiescence life.machine)

end Sisyphus.XhciDma
