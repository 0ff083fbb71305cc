import Sisyphus.Vtd.Calls
import Sisyphus.Vtd.Engine

/-!
# The DMA backend

A model of `hw/vtd_backend.rs`: one remapping engine, one set of second-level tables and one PCI
requester, behind the calls `isolate_device`, `map`, `unmap` and `release_domain`.  A driver maps
a span of pages at a time.  The span is a *batch*, which takes a run of page records, one for each
page, and a page record says what has become of its page: a handle for a page that is mapped, a
receipt for one whose map or unmap is still pending.

A batch that could not be mapped or unmapped completely is *quarantined*.  Its page records stay,
and a later `unmap` of the same span, or `release_domain`, goes on where the last attempt stopped.

The engine, the page memory and the page-table core are the `world` here, because the source lends
the first two to the core for each call.  Two things are kept that the source does not have and
that no function reads: the page calls made so far (`log`), and how many invalidations have
failed (`failures`).  `usize` is 64 bits wide.
-/

set_option autoImplicit false

namespace Sisyphus.Vtd

open Fallible Function Slpt

inductive Status where
  | ok
  | invalidArgument
  | unsupported
  | busy
  | notFound
  | ioError
  deriving DecidableEq

abbrev Handle := UInt64

/-- A PCI function.  The source's constructor refuses other slots and functions. -/
structure PciAddress where
  bus : UInt8
  slot : Fin 32
  function : Fin 8
  deriving DecidableEq

/-- The remapping unit and the requester that a backend is built for. -/
structure VtdRequesterScope where
  segment : UInt16
  registerBase : UInt64
  requester : PciAddress

/-! ## Root and context tables -/

/-- The two words of a root or context entry. -/
abbrev TableEntry := UInt64 × UInt64

structure RootContextTables where
  rootTable : UInt8 → TableEntry
  rootTablePhysicalAddress : UInt64
  contextTable : Fin 32 → Fin 8 → TableEntry
  contextTablePhysicalAddress : UInt64

namespace RootContextTables

def setRoot (tables : RootContextTables) (bus : UInt8) (entry : TableEntry) : RootContextTables :=
  { tables with rootTable := update tables.rootTable bus entry }

def setContext (tables : RootContextTables) (device : PciAddress) (entry : TableEntry) :
    RootContextTables :=
  { tables with
    contextTable := update tables.contextTable device.slot
      (update (tables.contextTable device.slot) device.function entry) }

def installContextTable (tables : RootContextTables) (bus : UInt8) (physicalAddress : UInt64) :
    Except TableError RootContextTables := do
  validatePage physicalAddress
  return tables.setRoot bus ((physicalAddress &&& physicalPageMask) ||| 1, 0)

def installSecondLevelTranslation (tables : RootContextTables) (device : PciAddress)
    (domainId : UInt16) (addressWidth : UInt8) (pageTableRoot : UInt64) :
    Except TableError RootContextTables := do
  validatePage pageTableRoot
  if addressWidth > 3 then throw .invalidAddressWidth
  return tables.setContext device ((pageTableRoot &&& physicalPageMask) ||| 1,
    (domainId.toUInt64 <<< 8) ||| addressWidth.toUInt64)

def rootTableIsEmpty (tables : RootContextTables) : Bool :=
  (List.finRange 256).all fun bus => tables.rootTable (UInt8.ofNat bus) == (0, 0)

def contextTableIsEmpty (tables : RootContextTables) : Bool :=
  (List.finRange 32).all fun slot => (List.finRange 8).all fun function =>
    tables.contextTable slot function == (0, 0)

/-- The root entry goes first, so that no walk can find the context table any more. -/
def clearRequesterEntries (tables : RootContextTables) (requester : PciAddress) :
    RootContextTables :=
  (tables.setRoot requester.bus (0, 0)).setContext requester (0, 0)

end RootContextTables

/-! ## Invalidating through the engine -/

def invalidationFault : SlptInvalidationError := 1

/-- The engine, lent to the page-table core, with the first fault it reported. -/
structure EngineInvalidator (R : Type) where
  engine : Engine R
  pollLimit : UInt32
  lastFault : Option VtdEngineFault
  /-- How many invalidations have failed. -/
  failures : Nat

instance {R : Type} [VtdRegisterBackend R] : SlptInvalidator (EngineInvalidator R) where
  invalidateAfterPageTableChange _ := fun s =>
    match Engine.commitTableUpdate s.pollLimit s.engine with
    | .ok () engine => .ok () { s with engine }
    | .error fault engine => .error invalidationFault
        { s with
          engine
          lastFault := if s.lastFault.isNone then some fault else s.lastFault
          failures := s.failures + 1 }

/-! ## Batches -/

inductive PageRecord where
  | empty
  | active (handle : MappingHandle)
  | mapPending (receipt : MapReceipt)
  | unmapPending (receipt : UnmapReceipt)
  deriving DecidableEq

inductive BatchPhase where
  | empty
  | staging
  | active
  | quarantined
  deriving DecidableEq

/-- A slot for a batch, whose run of page records is within the `pages` there are. -/
structure BatchSlot (pages : Nat) where
  generation : UInt32
  retired : Bool
  domainGeneration : UInt32
  phase : BatchPhase
  deviceAddress : UInt64
  physicalAddress : UInt64
  length : UInt64
  pageStart : Nat
  pageCount : Nat
  wasActive : Bool
  fits : pageStart + pageCount ≤ pages

namespace BatchSlot

variable {pages : Nat}

def empty : BatchSlot pages where
  generation := 1
  retired := false
  domainGeneration := 0
  phase := .empty
  deviceAddress := 0
  physicalAddress := 0
  length := 0
  pageStart := 0
  pageCount := 0
  wasActive := false
  fits := by omega

/-- The page record of a page of the batch. -/
def pageSlot (batch : BatchSlot pages) (page : Fin batch.pageCount) : Fin pages :=
  ⟨batch.pageStart + page, by
    have := batch.fits
    omega⟩

/-- The page records of the batch, in order. -/
def pageSlots (batch : BatchSlot pages) : List (Fin pages) :=
  (List.finRange batch.pageCount).map batch.pageSlot

end BatchSlot

/-! ## The backend -/

/-- `VtdBackendCore`, with the const parameters of the source. -/
structure Backend (pages batches maxBatchPages : Nat) (M R : Type) where
  world : World pages M (EngineInvalidator R)
  tables : RootContextTables
  scope : VtdRequesterScope
  domainGeneration : UInt32
  domainActive : Bool
  domainRetired : Bool
  authorityReleased : Bool
  poisoned : Bool
  batches : Fin batches → BatchSlot pages
  pageRecords : Fin pages → PageRecord
  /-- The page calls made so far, each with the world it was made in, newest first. -/
  log : List (World pages M (EngineInvalidator R) × Call)

/-- The access a driver asks for, as bits. -/
structure DmaAccess where
  bits : UInt8

namespace DmaAccess

def read : UInt8 := 1
def write : UInt8 := 2

def isInvalid (access : DmaAccess) : Bool :=
  access.bits == 0 || access.bits &&& ~~~(read ||| write) != 0

def permissions (access : DmaAccess) : DmaPermissions :=
  ⟨access.bits &&& read != 0, access.bits &&& write != 0⟩

end DmaAccess

def domainHandle (generation : UInt32) : Handle := (generation.toUInt64 <<< 32) ||| 1

def rangesOverlap (firstStart firstLength secondStart secondLength : UInt64) : Bool :=
  let firstEnd := min (firstStart.toNat + firstLength.toNat) (2 ^ 64 - 1)
  let secondEnd := min (secondStart.toNat + secondLength.toNat) (2 ^ 64 - 1)
  decide (firstStart.toNat < secondEnd) && decide (secondStart.toNat < firstEnd)

def slptStatus : SlptFault → Status
  | .invalidIova => .invalidArgument
  | .invalidPhysicalAddress => .invalidArgument
  | .invalidPermissions => .invalidArgument
  | .capacityExhausted => .busy
  | .iovaOverlap => .busy
  | .physicalAlias => .busy
  | _ => .ioError

namespace Backend

variable {pages batches maxBatchPages : Nat} {M R ε α : Type}

/-- The engine of a backend. -/
def engine (b : Backend pages batches maxBatchPages M R) : Engine R := b.world.invalidator.engine

def validDomain (b : Backend pages batches maxBatchPages M R) (domain : Handle) : Bool :=
  b.domainActive && !b.authorityReleased && domain == domainHandle b.domainGeneration

def setPageRecord (p : Fin pages) (record : PageRecord) :
    EStateM ε (Backend pages batches maxBatchPages M R) Unit :=
  modify fun b => { b with pageRecords := update b.pageRecords p record }

def setBatch (index : Fin batches) (f : BatchSlot pages → BatchSlot pages) :
    EStateM ε (Backend pages batches maxBatchPages M R) Unit :=
  modify fun b => { b with batches := update b.batches index (f (b.batches index)) }

def poison : EStateM ε (Backend pages batches maxBatchPages M R) Unit :=
  modify fun b => { b with poisoned := true }

/-- `if self.engine.state() == VtdEngineState::Poisoned { self.poisoned = true; }`. -/
def poisonWithEngine : EStateM ε (Backend pages batches maxBatchPages M R) Unit :=
  modify fun b => { b with poisoned := b.poisoned || b.engine.state == .poisoned }

/-- Makes a page call, and writes it down. -/
def onSlpt (call : Call) (x : Slpt.Op pages M (EngineInvalidator R) SlptFault α) :
    EStateM ε (Backend pages batches maxBatchPages M R) (Except SlptFault α) :=
  within Backend.world (fun w b => { b with world := w, log := (b.world, call) :: b.log }) x

def retireBatch (index : Fin batches) : EStateM ε (Backend pages batches maxBatchPages M R) Unit :=
  setBatch index fun batch =>
    if batch.generation == 0xffffffff then
      { BatchSlot.empty with generation := batch.generation, retired := true }
    else { BatchSlot.empty with generation := batch.generation + 1 }

/-- The first run of `pageCount` page records that are all empty. -/
def findFreePageRun (b : Backend pages batches maxBatchPages M R) (pageCount : Nat) :
    Option { start : Nat // start + pageCount ≤ pages } :=
  if h : 0 < pageCount ∧ pageCount ≤ pages then
    (List.finRange (pages - pageCount + 1)).findSome? fun (start : Fin _) =>
      if ∀ i : Fin pageCount, b.pageRecords ⟨start.val + i, by omega⟩ = .empty then
        some ⟨start.val, by omega⟩
      else none
  else none

variable [SlptPageMemory M] [VtdRegisterBackend R]

/-- A call that takes a page out, and what to write down about it. -/
abbrev Discharge (pages : Nat) (M R : Type) :=
  Call × Slpt.Op pages M (EngineInvalidator R) SlptFault UnmapOutcome

/-- The call that takes a page out, from wherever it stands. -/
def discharge : PageRecord → Option (Discharge pages M R)
  | .empty => none
  | .active handle => some (.unmapPage handle, Slpt.unmapPage handle)
  | .mapPending receipt => some (.cancelPendingMap receipt, Slpt.cancelPendingMap receipt)
  | .unmapPending receipt => some (.finishUnmap receipt, Slpt.finishUnmap receipt)

/-- The loop of `cleanup_batch` over the pages still to go.  It stops at the first page that is
not done, and leaves the others alone. -/
def cleanupPages (index : Fin batches) :
    List (Fin pages) → EStateM Unit (Backend pages batches maxBatchPages M R) Bool
  | [] => do
    retireBatch index
    return true
  | p :: rest => do
    match discharge ((← get).pageRecords p) with
    | none => cleanupPages index rest
    | some (call, x) =>
      match ← onSlpt call x with
      | .ok .complete =>
        setPageRecord p .empty
        cleanupPages index rest
      | .ok (.pending receipt _) =>
        setPageRecord p (.unmapPending receipt)
        poisonWithEngine
        setBatch index fun batch => { batch with phase := .quarantined }
        return false
      | .error _ =>
        poison
        setBatch index fun batch => { batch with phase := .quarantined }
        throw ()

/-- Returns `true` only after every page of the batch is gone. -/
def cleanupBatch (index : Fin batches) :
    EStateM Unit (Backend pages batches maxBatchPages M R) Bool := do
  cleanupPages index ((← get).batches index).pageSlots

/-- The loop of `map_span` over the pages still to go.  An answer is the status it failed with. -/
def mapPages (batch : BatchSlot pages) (permissions : DmaPermissions) :
    List (Fin batch.pageCount) →
      EStateM ε (Backend pages batches maxBatchPages M R) (Option Status)
  | [] => return none
  | page :: rest => do
    let offset := page.val.toUInt64 * pageSize
    let iova := batch.deviceAddress + offset
    let physical := batch.physicalAddress + offset
    match ← onSlpt (.mapPage iova physical permissions)
        (Slpt.mapPage iova physical permissions) with
    | .ok (.active handle) =>
      setPageRecord (batch.pageSlot page) (.active handle)
      mapPages batch permissions rest
    | .ok (.pending receipt _) =>
      setPageRecord (batch.pageSlot page) (.mapPending receipt)
      poisonWithEngine
      return some .ioError
    | .error fault =>
      if fault == .poisoned || fault == .rollbackFailed then poison
      return some (slptStatus fault)

/-- What `map_span` does once it has found room for the batch. -/
def mapBatch (index : Fin batches) (batch : BatchSlot pages) (permissions : DmaPermissions) :
    EStateM ε (Backend pages batches maxBatchPages M R) Status := do
  setBatch index fun _ => batch
  match ← mapPages batch permissions (List.finRange batch.pageCount) with
  | some status =>
    setBatch index fun batch => { batch with phase := .quarantined }
    let _ ← attempt (cleanupBatch index)
    return status
  | none =>
    setBatch index fun batch => { batch with phase := .active, wasActive := true }
    return .ok

/-- A status that is returned early is thrown. -/
def mapSpan (domain : Handle) (deviceAddress physicalAddress length : UInt64)
    (access : DmaAccess) : EStateM Status (Backend pages batches maxBatchPages M R) Status := do
  let b ← get
  refuse (!b.validDomain domain) .notFound
  refuse (b.poisoned || (List.finRange batches).any fun i => (b.batches i).phase == .quarantined)
    .ioError
  refuse (length == 0 || deviceAddress % pageSize != 0 || physicalAddress % pageSize != 0 ||
    length % pageSize != 0 || decide (deviceAddress.toNat + length.toNat ≥ 2 ^ 64) ||
    decide (physicalAddress.toNat + length.toNat ≥ 2 ^ 64) || access.isInvalid) .invalidArgument
  let pageCount := (length / pageSize).toNat
  refuse (decide (pageCount > maxBatchPages) || decide (pageCount > pages)) .busy
  refuse ((List.finRange batches).any fun i => (b.batches i).phase != .empty &&
    (rangesOverlap (b.batches i).deviceAddress (b.batches i).length deviceAddress length ||
      rangesOverlap (b.batches i).physicalAddress (b.batches i).length physicalAddress length))
        .busy
  let index ← orThrow ((List.finRange batches).find? fun i =>
    (b.batches i).phase == .empty && !(b.batches i).retired) .busy
  let start ← orThrow (b.findFreePageRun pageCount) .busy
  mapBatch index
    { generation := (b.batches index).generation
      retired := false
      domainGeneration := b.domainGeneration
      phase := .staging
      deviceAddress, physicalAddress, length, pageCount
      pageStart := start
      wasActive := false
      fits := start.property } access.permissions

def unmapSpan (domain : Handle) (deviceAddress length : UInt64) :
    EStateM Status (Backend pages batches maxBatchPages M R) Status := do
  let b ← get
  refuse (!b.validDomain domain) .notFound
  let index ← orThrow ((List.finRange batches).find? fun i => (b.batches i).phase != .empty &&
    (b.batches i).domainGeneration == b.domainGeneration &&
    (b.batches i).deviceAddress == deviceAddress && (b.batches i).length == length) .notFound
  setBatch index fun batch => { batch with phase := .quarantined }
  match ← attempt (cleanupBatch index) with
  | .ok true => return if (b.batches index).wasActive then .ok else .notFound
  | .ok false => return .ioError
  | .error () => return .ioError

/-- The loop of `release_domain` over the batches.  The answer is whether a cleanup failed. -/
def cleanupBatches : List (Fin batches) →
    EStateM ε (Backend pages batches maxBatchPages M R) Bool
  | [] => return false
  | index :: rest => do
    if ((← get).batches index).phase != .empty then
      match ← attempt (cleanupBatch index) with
      | .ok true => cleanupBatches rest
      | _ =>
        let _ ← cleanupBatches rest
        return true
    else cleanupBatches rest

/-- Turns translation off and records a failure to do so. -/
def disableEngine : EStateM ε (Backend pages batches maxBatchPages M R) Bool := do
  let b ← get
  match Engine.disable b.world.invalidator.pollLimit b.engine with
  | .ok () engine =>
    modify fun b => { b with world.invalidator.engine := engine }
    return true
  | .error fault engine =>
    modify fun b =>
      { b with
        world.invalidator.engine := engine
        world.invalidator.lastFault := some fault
        poisoned := b.poisoned || engine.state == .poisoned }
    return false

def releaseDomain (domain : Handle) :
    EStateM Status (Backend pages batches maxBatchPages M R) Status := do
  let b ← get
  refuse (!b.validDomain domain) .notFound
  let cleanupFailed ← cleanupBatches (List.finRange batches)
  let b ← get
  refuse (cleanupFailed || (List.finRange batches).any fun i => (b.batches i).phase != .empty)
    .ioError
  if !(← disableEngine) then return .ioError
  modify fun b =>
    { b with
      tables := b.tables.clearRequesterEntries b.scope.requester
      authorityReleased := true
      domainActive := false
      domainRetired := b.domainRetired || b.domainGeneration == 0xffffffff
      domainGeneration :=
        if b.domainGeneration == 0xffffffff then b.domainGeneration else b.domainGeneration + 1 }
  return .ok

def isolateDevice (device : PciAddress) :
    EStateM Status (Backend pages batches maxBatchPages M R) Handle := do
  let b ← get
  refuse (device != b.scope.requester) .unsupported
  refuse (b.poisoned || b.authorityReleased) .ioError
  refuse b.domainActive .busy
  refuse b.domainRetired .unsupported
  modify fun b => { b with domainActive := true }
  return domainHandle b.domainGeneration

/-! ## Building -/

inductive VtdBackendBuildFault where
  | invalidCapacity
  | invalidTableAlias
  | rootTableNotEmpty
  | contextTableNotEmpty
  | probe (fault : VtdEngineFault)
  | slpt (fault : SlptFault)
  | table (error : TableError)
  | enable (fault : VtdEngineFault)

/-- The widest supported address width, as the hardware encodes it. -/
def selectAddressWidth (supported maximum : UInt8) : Option UInt8 :=
  [(3, 57), (2, 48), (1, 39), (0, 30)].findSome? fun ((encoding, width) : UInt8 × UInt8) =>
    if supported &&& (1 <<< encoding) != 0 && decide (width ≤ maximum) then some encoding else none

/-- `build`.  With a fault the source also hands back the resources it was given. -/
def build (pages batches maxBatchPages : Nat) (scope : VtdRequesterScope) (registers : R)
    (memory : M) (tables : RootContextTables) (slptRoot : SlptFrame) (domainId : UInt16)
    (pollLimit : UInt32) :
    Except VtdBackendBuildFault (Backend pages batches maxBatchPages M R) := do
  let engine ← (Engine.probe scope.segment scope.registerBase registers).mapError (.probe ·.1)
  if pages == 0 || batches == 0 || maxBatchPages == 0 || decide (batches > 65535) ||
      pollLimit == 0 then throw .invalidCapacity
  let rootPa := tables.rootTablePhysicalAddress
  let contextPa := tables.contextTablePhysicalAddress
  if rootPa == contextPa || rootPa == slptRoot.address || contextPa == slptRoot.address then
    throw .invalidTableAlias
  if !tables.rootTableIsEmpty then throw .rootTableNotEmpty
  if !tables.contextTableIsEmpty then throw .contextTableNotEmpty
  let capabilities := engine.capabilities
  let some addressWidthEncoding := selectAddressWidth capabilities.supportedAdjustedGuestWidths
      capabilities.maximumGuestAddressWidth
    | throw (.slpt .unsupportedAddressWidth)
  let config : SlptConfig :=
    ⟨capabilities.supportedAdjustedGuestWidths, capabilities.maximumGuestAddressWidth,
      addressWidthEncoding⟩
  match Slpt.attach pages memory slptRoot config with
  | (.error fault, _) => throw (.slpt fault)
  | (.ok core, memory) =>
    let tables ← (tables.installSecondLevelTranslation scope.requester domainId
      addressWidthEncoding core.root.address).mapError .table
    let tables ← (tables.installContextTable scope.requester.bus contextPa).mapError .table
    match Engine.enable rootPa pollLimit engine with
    | .error fault _ => throw (.enable fault)
    | .ok _ engine =>
      return {
        world := ⟨core, memory, ⟨engine, pollLimit, none, 0⟩⟩
        tables, scope
        domainGeneration := 1
        domainActive := false
        domainRetired := false
        authorityReleased := false
        poisoned := false
        batches := fun _ => BatchSlot.empty
        pageRecords := fun _ => .empty
        log := [] }

/-! ## Requests -/

end Backend

inductive Request where
  | isolateDevice (device : PciAddress)
  | map (domain : Handle) (deviceAddress physicalAddress length : UInt64) (access : DmaAccess)
  | unmap (domain : Handle) (deviceAddress length : UInt64)
  | releaseDomain (domain : Handle)

inductive Answer where
  | status (status : Status)
  | domain (handle : Handle)

namespace Backend

variable {pages batches maxBatchPages : Nat} {M R α : Type}

/-- What a call comes to, with statuses that were returned early. -/
def answer (ok : α → Answer) (x : EStateM Status (Backend pages batches maxBatchPages M R) α)
    (b : Backend pages batches maxBatchPages M R) :
    Answer × Backend pages batches maxBatchPages M R :=
  match x b with
  | .ok a b => (ok a, b)
  | .error status b => (.status status, b)

variable [SlptPageMemory M] [VtdRegisterBackend R]

def perform (b : Backend pages batches maxBatchPages M R) :
    Request → Answer × Backend pages batches maxBatchPages M R
  | .isolateDevice device => answer .domain (isolateDevice device) b
  | .map domain deviceAddress physicalAddress length access =>
    answer .status (mapSpan domain deviceAddress physicalAddress length access) b
  | .unmap domain deviceAddress length => answer .status (unmapSpan domain deviceAddress length) b
  | .releaseDomain domain => answer .status (releaseDomain domain) b

/-- The backend after a list of requests. -/
def run (b : Backend pages batches maxBatchPages M R) (requests : List Request) :
    Backend pages batches maxBatchPages M R := Run.final perform b requests

end Backend

end Sisyphus.Vtd
