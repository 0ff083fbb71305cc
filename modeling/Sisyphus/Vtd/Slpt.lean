import Sisyphus.Vtd.Memory

/-!
# The second-level page-table core

A model of `hw/vtd_slpt.rs`: the tables that translate the addresses a device uses (IOVAs) for
one DMA domain, and a ledger of fixed capacity with one record for each page that is mapped or on
its way out.  A page goes through the phases

  `awaitingMapInvalidation` → `active` → `awaitingUnmapInvalidation` → `awaitingCleanup`

and its record is removed when the tables that only it needed have been given back.  A record
keeps the path of tables it was mapped through and how many of them, counted from the leaf, have
already been released (`cleanupDepth`).

`World` is what a call works on: the core itself, the page memory and the invalidator, which the
source passes to each call by mutable reference.  An array that is filled from the front is a
list here, so that `path.frames` and the new links hold exactly what has been stored in them.
-/

set_option autoImplicit false

namespace Sisyphus.Slpt

open Fallible Words SlptPageMemory SlptInvalidator

/-! ## Configuration -/

structure SlptConfig where
  supportedAdjustedGuestWidths : UInt8
  maximumGuestAddressWidth : UInt8
  addressWidthEncoding : UInt8

inductive MappingPhase where
  | awaitingMapInvalidation
  | active
  | awaitingUnmapInvalidation
  | awaitingCleanup
  deriving DecidableEq

inductive SlptState where
  | operational
  | poisoned
  deriving DecidableEq

inductive SlptFault where
  | invalidAddressWidth
  | unsupportedAddressWidth
  | invalidRoot
  | rootNotEmpty
  | invalidIova
  | invalidPhysicalAddress
  | invalidPermissions
  | capacityExhausted
  | iovaOverlap
  | physicalAlias
  | foreignEntry
  | malformedEntry
  | frameAlias
  | unknownMapping
  | invalidPhase
  | staleReceipt
  | entryMismatch
  | memory (error : SlptMemoryError)
  | rollbackFailed
  | poisoned
  deriving DecidableEq

def SlptConfig.adjustedGuestAddressWidth (c : SlptConfig) : Option Nat :=
  match c.addressWidthEncoding.toNat with
  | 0 => some 30
  | 1 => some 39
  | 2 => some 48
  | 3 => some 57
  | _ => none

def SlptConfig.validate (c : SlptConfig) : Except SlptFault Nat :=
  match c.adjustedGuestAddressWidth with
  | none => .error .invalidAddressWidth
  | some width =>
    if c.supportedAdjustedGuestWidths &&& (1 <<< c.addressWidthEncoding) == 0 ||
        decide (c.maximumGuestAddressWidth.toNat < 30) ||
        decide (c.maximumGuestAddressWidth.toNat > 64) ||
        decide (width > c.maximumGuestAddressWidth.toNat) then
      .error .unsupportedAddressWidth
    else .ok width

structure DmaPermissions where
  read : Bool
  write : Bool

def DmaPermissions.bits (p : DmaPermissions) : Except SlptFault UInt64 :=
  let bits := (if p.read then readBit else 0) ||| (if p.write then writeBit else 0)
  if bits == 0 then .error .invalidPermissions else .ok bits

/-! ## The ledger -/

structure MappingHandle where
  slot : UInt16
  generation : UInt32
  deriving DecidableEq

structure MapReceipt where
  handle : MappingHandle
  deriving DecidableEq

structure UnmapReceipt where
  handle : MappingHandle
  deriving DecidableEq

inductive PendingCause where
  | invalidation (error : SlptInvalidationError)
  | cleanup (error : SlptMemoryError)
  deriving DecidableEq

inductive MapOutcome where
  | active (handle : MappingHandle)
  | pending (receipt : MapReceipt) (cause : PendingCause)
  deriving DecidableEq

inductive UnmapOutcome where
  | complete
  | pending (receipt : UnmapReceipt) (cause : PendingCause)
  deriving DecidableEq

/-- The tables from the root to the leaf table, and the index taken in each. -/
structure PagePath where
  frames : List SlptFrame
  indices : List TableIndex
  depth : Nat
  deriving DecidableEq

structure MappingRecord where
  iova : UInt64
  physicalAddress : UInt64
  leaf : UInt64
  path : PagePath
  cleanupDepth : Nat
  phase : MappingPhase
  deriving DecidableEq

/-- How many tables of its path, counted from the root, a record still holds on to. -/
def MappingRecord.retainedDepth (r : MappingRecord) : Nat := r.path.depth - r.cleanupDepth

structure MappingSlot where
  generation : UInt32
  record : Option MappingRecord
  retired : Bool

def MappingSlot.empty : MappingSlot := ⟨1, none, false⟩

structure NewLink where
  parent : SlptFrame
  index : TableIndex
  child : SlptFrame

/-- A root, its geometry, and the ledger. -/
structure Core (n : Nat) where
  root : SlptFrame
  adjustedWidth : Nat
  levels : Nat
  slots : Fin n → MappingSlot
  state : SlptState

namespace Core

variable {n : Nat}

def frameIsKnown (c : Core n) (frame : SlptFrame) : Bool :=
  frame == c.root || (List.finRange n).any fun k =>
    match (c.slots k).record with
    | some r => (r.path.frames.take r.retainedDepth).contains frame
    | none => false

/-- The slot of a handle, with the record in it. -/
def recordIndex (c : Core n) (h : MappingHandle) : Except SlptFault (Fin n × MappingRecord) :=
  if hk : h.slot.toNat < n then
    match (c.slots ⟨h.slot.toNat, hk⟩).record with
    | some r =>
      if (c.slots ⟨h.slot.toNat, hk⟩).generation != h.generation then .error .unknownMapping
      else .ok (⟨h.slot.toNat, hk⟩, r)
    | none => .error .unknownMapping
  else .error .unknownMapping

def setSlot (c : Core n) (k : Fin n) (slot : MappingSlot) : Core n :=
  { c with slots := Function.update c.slots k slot }

def setRecord (c : Core n) (k : Fin n) (r : MappingRecord) : Core n :=
  c.setSlot k { c.slots k with record := some r }

def retireSlot (c : Core n) (k : Fin n) : Core n :=
  c.setSlot k <|
    if (c.slots k).generation == 0xffffffff then { c.slots k with record := none, retired := true }
    else { c.slots k with record := none, generation := (c.slots k).generation + 1 }

/-- The index that `iova` takes in the table at a position of its path. -/
def indexAt (levels : Nat) (iova : UInt64) (position : Nat) : TableIndex :=
  ⟨((iova >>> (pageShift + (levels - 1 - position) * 9).toUInt64) &&& 0x1ff).toNat, by
    have h : (0x1ff : UInt64).toNat = 511 := rfl
    have := (UInt64.le_iff_toNat_le).mp
      (UInt64.and_le_right (a := iova >>> (pageShift + (levels - 1 - position) * 9).toUInt64)
        (b := 0x1ff))
    rw [h] at this
    exact Nat.lt_succ_of_le this⟩

def validateIova (c : Core n) (iova : UInt64) : Except SlptFault Unit :=
  if iova &&& (pageSize - 1) != 0 then .error .invalidIova
  else if iova.toNat + 4095 ≥ 2 ^ 64 then .error .invalidIova
  else if c.adjustedWidth < 64 ∧ iova.toNat + 4095 ≥ 2 ^ c.adjustedWidth then .error .invalidIova
  else .ok ()

end Core

def validateMappedPhysicalAddress (address : UInt64) : Except SlptFault Unit :=
  if address &&& (pageSize - 1) != 0 || address &&& ~~~physicalPageMask != 0 then
    .error .invalidPhysicalAddress
  else .ok ()

def decodeTablePointer (entry : UInt64) : Except SlptFault SlptFrame :=
  if entry &&& permissionMask != permissionMask ||
      entry &&& ~~~(physicalPageMask ||| permissionMask) != 0 ||
      entry &&& physicalPageMask == 0 then .error .malformedEntry
  else
    match SlptFrame.fromPhysicalAddress (entry &&& physicalPageMask) with
    | some f => .ok f
    | none => .error .malformedEntry

/-! ## Calls -/

structure World (n : Nat) (M I : Type) where
  core : Core n
  memory : M
  invalidator : I

section Calls

variable {n : Nat} {M I ε α : Type}

abbrev Op (n : Nat) (M I ε α : Type) := EStateM ε (World n M I) α

def modifyCore (f : Core n → Core n) : Op n M I ε Unit :=
  modify fun w => { w with core := f w.core }

/-- `self.state = SlptState::Poisoned`. -/
def poison : Op n M I ε Unit := modifyCore fun c => { c with state := .poisoned }

/-- Calls the page memory. -/
def onMemory (x : EStateM SlptMemoryError M α) : Op n M I ε (Except SlptMemoryError α) :=
  within World.memory (fun m w => { w with memory := m }) x

/-- Calls the invalidator. -/
def onInvalidator (x : EStateM SlptInvalidationError I α) :
    Op n M I ε (Except SlptInvalidationError α) :=
  within World.invalidator (fun i w => { w with invalidator := i }) x

/-- Calls the page memory and passes a failure on with `?`. -/
def memory? (wrap : SlptMemoryError → ε) (x : EStateM SlptMemoryError M α) : Op n M I ε α := do
  match ← onMemory x with
  | .ok a => pure a
  | .error e => throw (wrap e)

section Rules

variable {β : Type} {w : World n M I} {Q : α → World n M I → Prop} {E : ε → World n M I → Prop}

@[simp] theorem ensures_onMemory {x : EStateM SlptMemoryError M β}
    {R : Except SlptMemoryError β → World n M I → Prop} :
    Ensures (onMemory x) w R E ↔ Ensures x w.memory (fun a m => R (.ok a) { w with memory := m })
      (fun e m => R (.error e) { w with memory := m }) := ensures_within

@[simp] theorem ensures_onInvalidator {x : EStateM SlptInvalidationError I β}
    {R : Except SlptInvalidationError β → World n M I → Prop} :
    Ensures (onInvalidator x) w R E ↔
      Ensures x w.invalidator (fun a i => R (.ok a) { w with invalidator := i })
        (fun e i => R (.error e) { w with invalidator := i }) := ensures_within

@[simp] theorem ensures_memory? {wrap : SlptMemoryError → ε} {x : EStateM SlptMemoryError M α} :
    Ensures (memory? wrap x) w Q E ↔ Ensures x w.memory (fun a m => Q a { w with memory := m })
      (fun e m => E (wrap e) { w with memory := m }) := by
  rw [memory?, ensures_bind, ensures_onMemory]
  rfl

variable {R : Unit → World n M I → Prop}

@[simp] theorem ensures_modifyCore {f : Core n → Core n} :
    Ensures (modifyCore f) w R E ↔ R () { w with core := f w.core } := Iff.rfl

@[simp] theorem ensures_poison :
    Ensures poison w R E ↔ R () { w with core := { w.core with state := .poisoned } } := Iff.rfl

end Rules

variable [SlptPageMemory M] [SlptInvalidator I]

def ensureOperational : Op n M I SlptFault Unit := do
  refuse ((← get).core.state != .operational) .poisoned

/-- `attach`: takes over an empty root. -/
def attach (n : Nat) (memory : M) (root : SlptFrame) (config : SlptConfig) :
    Except SlptFault (Core n) × M :=
  if n == 0 || decide (n > 65535) || root.address == 0 then (.error .invalidRoot, memory)
  else
    match config.validate with
    | .error e => (.error e, memory)
    | .ok width =>
      match checkEmpty memory (List.finRange entriesPerTable) with
      | (.error e, m) => (.error e, m)
      | (.ok (), m) => (.ok
          { root
            adjustedWidth := width
            levels := (width - pageShift + 8) / 9
            slots := fun _ => .empty
            state := .operational }, m)
where
  /-- The loop over the root's entries. -/
  checkEmpty (m : M) : List TableIndex → Except SlptFault Unit × M
    | [] => (.ok (), m)
    | i :: rest =>
      match (readEntry root i : EStateM SlptMemoryError M UInt64) m with
      | .error e m => (.error (.memory e), m)
      | .ok entry m => if entry != 0 then (.error .rootNotEmpty, m) else checkEmpty m rest

/-! ### Building a path -/

/-- Gives back a table that was just allocated, after `error` stopped its use. -/
def discardTable (child : SlptFrame) (error : SlptMemoryError) :
    Op n M I ε (Except SlptFault SlptFrame) := do
  match ← onMemory (releaseTable child) with
  | .error _ => return .error .rollbackFailed
  | .ok () => return .error (.memory error)

/-- The branch of `build_path` for an empty entry: links a new table. -/
def linkNewTable (frames : List SlptFrame) (parent : SlptFrame) (index : TableIndex) :
    Op n M I ε (Except SlptFault SlptFrame) := do
  match ← onMemory allocateTable with
  | .error e => return .error (.memory e)
  | .ok child =>
    let w ← get
    if child.address == 0 || w.core.frameIsKnown child || frames.contains child then
      poison
      return .error .frameAlias
    match ← onMemory (zeroTable child) with
    | .error e => discardTable child e
    | .ok () =>
      match ← onMemory (writeEntry parent index (tablePointer child)) with
      | .error e => discardTable child e
      | .ok () => return .ok child

/-- The branch of `build_path` for an entry that is in use: follows it. -/
def followEntry (entry : UInt64) : Op n M I ε (Except SlptFault SlptFrame) := do
  let w ← get
  match decodeTablePointer entry with
  | .ok child =>
    if w.core.frameIsKnown child then return .ok child
    poison
    return .error .foreignEntry
  | .error e =>
    poison
    return .error e

/-- The loop of `build_path`, for the positions still to go.  The new links are returned with an
error as well, for the caller to take back. -/
def buildPath (iova : UInt64) : Nat → PagePath → List NewLink →
    Op n M I ε (Except SlptFault PagePath × List NewLink)
  | 0, path, links => return (.ok path, links)
  | remaining + 1, path, links => do
    let w ← get
    let position := path.indices.length
    let index := Core.indexAt w.core.levels iova position
    let path := { path with indices := path.indices ++ [index] }
    if remaining = 0 then return (.ok path, links)
    let parent := path.frames.getD position w.core.root
    match ← onMemory (readEntry parent index) with
    | .error e => return (.error (.memory e), links)
    | .ok entry =>
      let found ← if entry == 0 then linkNewTable path.frames parent index else followEntry entry
      match found with
      | .error e => return (.error e, links)
      | .ok child =>
        let links := if entry == 0 then links ++ [⟨parent, index, child⟩] else links
        if path.frames.contains child then
          poison
          return (.error .malformedEntry, links)
        buildPath iova remaining { path with frames := path.frames ++ [child] } links

/-- The loop of `rollback_new_links`, newest link first. -/
def rollbackNewLinks : List NewLink → Op n M I SlptFault Unit
  | [] => pure ()
  | link :: rest => do
    memory? .memory (writeEntry link.parent link.index 0)
    match ← onMemory (releaseTable link.child) with
    | .ok () => rollbackNewLinks rest
    | .error e =>
      match ← onMemory (writeEntry link.parent link.index (tablePointer link.child)) with
      | .ok () => throw (.memory e)
      | .error _ => throw .rollbackFailed

/-- What `map_page` does on each of its error paths first. -/
def rollBack (links : List NewLink) : Op n M I SlptFault Unit := do
  match ← attempt (rollbackNewLinks links.reverse) with
  | .ok () => pure ()
  | .error _ =>
    poison
    throw .rollbackFailed

/-! ### Mapping -/

/-- The check of `map_page` against the records in the ledger, in slot order. -/
def Core.checkOverlap (c : Core n) (iova physicalAddress : UInt64) : Except SlptFault Unit :=
  (List.finRange n).foldr (fun k rest =>
    match (c.slots k).record with
    | none => rest
    | some r =>
      if r.iova == iova then .error .iovaOverlap
      else if r.physicalAddress == physicalAddress then .error .physicalAlias
      else rest) (.ok ())

/-- Publishes the leaf of a path that was built. -/
def publishLeaf (path : PagePath) (links : List NewLink) (leaf : UInt64) :
    Op n M I SlptFault Unit := do
  let w ← get
  let leafTable := path.frames.getD (w.core.levels - 1) w.core.root
  let leafIndex := path.indices.getD (w.core.levels - 1) 0
  match ← onMemory (readEntry leafTable leafIndex) with
  | .error e =>
    rollBack links
    throw (.memory e)
  | .ok existing =>
    if existing != 0 then
      rollBack links
      poison
      throw .foreignEntry
    match ← onMemory (writeEntry leafTable leafIndex leaf) with
    | .error e =>
      rollBack links
      throw (.memory e)
    | .ok () => pure ()

/-- Invalidates for a record that awaits its map invalidation. -/
def completeMap (k : Fin n) (r : MappingRecord) (handle : MappingHandle) :
    Op n M I SlptFault MapOutcome := do
  match ← onInvalidator (invalidateAfterPageTableChange r.iova) with
  | .ok () =>
    modifyCore fun c => c.setRecord k { r with phase := .active }
    return .active handle
  | .error e => return .pending ⟨handle⟩ (.invalidation e)

def mapPage (iova physicalAddress : UInt64) (permissions : DmaPermissions) :
    Op n M I SlptFault MapOutcome := do
  ensureOperational
  let w ← get
  propagate (w.core.validateIova iova)
  propagate (validateMappedPhysicalAddress physicalAddress)
  let permissionBits ← propagate permissions.bits
  propagate (w.core.checkOverlap iova physicalAddress)
  let k ← orThrow ((List.finRange n).find? fun k =>
    (w.core.slots k).record.isNone && !(w.core.slots k).retired) .capacityExhausted
  let (built, links) ← buildPath iova w.core.levels ⟨[w.core.root], [], w.core.levels⟩ []
  match built with
  | .error e =>
    rollBack links
    if e == .rollbackFailed then poison
    throw e
  | .ok path =>
    let leaf := physicalAddress ||| permissionBits
    publishLeaf path links leaf
    let record : MappingRecord :=
      { iova, physicalAddress, leaf, path, cleanupDepth := 0, phase := .awaitingMapInvalidation }
    modifyCore fun c => c.setRecord k record
    completeMap k record ⟨k.val.toUInt16, (w.core.slots k).generation⟩

def finishMap (receipt : MapReceipt) : Op n M I SlptFault MapOutcome := do
  ensureOperational
  let (k, r) ← propagate ((← get).core.recordIndex receipt.handle)
  refuse (r.phase != .awaitingMapInvalidation) .staleReceipt
  completeMap k r receipt.handle

/-! ### Unmapping -/

inductive ReclaimError where
  | memory (error : SlptMemoryError)
  | invalidation (error : SlptInvalidationError)
  | fatal

/-- The loop of `table_is_empty`. -/
def tableIsEmpty (frame : SlptFrame) : List TableIndex → Op n M I ReclaimError Bool
  | [] => return true
  | i :: rest => do
    let entry ← memory? .memory (readEntry frame i)
    if entry != 0 then return false else tableIsEmpty frame rest

/-- Puts back a pointer that had been cleared, and reports `error`. -/
def restorePointer (parent : SlptFrame) (index : TableIndex) (pointer : UInt64)
    (error : ReclaimError) : Op n M I ReclaimError α := do
  match ← onMemory (writeEntry parent index pointer) with
  | .ok () => throw error
  | .error _ => throw .fatal

/-- The loop of `reclaim_empty_tables`.  The argument is the position of the table that comes
next, `depth - 1 - cleanup_depth`; the root, at position 0, is never given back. -/
def reclaimEmptyTables (k : Fin n) : Nat → MappingRecord → Op n M I ReclaimError Unit
  | 0, _ => pure ()
  | parentPosition + 1, r => do
    let root := (← get).core.root
    let child := r.path.frames.getD (parentPosition + 1) root
    if !(← tableIsEmpty child (List.finRange entriesPerTable)) then return
    let parent := r.path.frames.getD parentPosition root
    let parentIndex := r.path.indices.getD parentPosition 0
    let pointer := tablePointer child
    let entry ← memory? .memory (readEntry parent parentIndex)
    if entry != pointer then throw .fatal
    memory? .memory (writeEntry parent parentIndex 0)
    match ← onInvalidator (invalidateAfterPageTableChange r.iova) with
    | .error e => restorePointer parent parentIndex pointer (.invalidation e)
    | .ok () =>
      match ← onMemory (releaseTable child) with
      | .error e => restorePointer parent parentIndex pointer (.memory e)
      | .ok () =>
        let r := { r with cleanupDepth := r.cleanupDepth + 1 }
        modifyCore fun c => c.setRecord k r
        reclaimEmptyTables k parentPosition r

/-- The last phase of an unmap. -/
def cleanUp (k : Fin n) (r : MappingRecord) (receipt : UnmapReceipt) :
    Op n M I SlptFault UnmapOutcome := do
  match ← attempt (reclaimEmptyTables k (r.path.depth - 1 - r.cleanupDepth) r) with
  | .ok () =>
    modifyCore fun c => c.retireSlot k
    return .complete
  | .error (.memory e) => return .pending receipt (.cleanup e)
  | .error (.invalidation e) => return .pending receipt (.invalidation e)
  | .error .fatal =>
    poison
    throw .rollbackFailed

def finishUnmap (receipt : UnmapReceipt) : Op n M I SlptFault UnmapOutcome := do
  ensureOperational
  let (k, r) ← propagate ((← get).core.recordIndex receipt.handle)
  if r.phase = .awaitingUnmapInvalidation then
    match ← onInvalidator (invalidateAfterPageTableChange r.iova) with
    | .error e => return .pending receipt (.invalidation e)
    | .ok () =>
      let r := { r with phase := .awaitingCleanup }
      modifyCore fun c => c.setRecord k r
      cleanUp k r receipt
  else
    refuse (r.phase != .awaitingCleanup) .staleReceipt
    cleanUp k r receipt

/-- What `unmap_page` and `cancel_pending_map` share: clears the leaf and goes on as an unmap. -/
def clearLeaf (k : Fin n) (r : MappingRecord) (handle : MappingHandle) :
    Op n M I SlptFault UnmapOutcome := do
  let root := (← get).core.root
  let leafTable := r.path.frames.getD (r.path.depth - 1) root
  let leafIndex := r.path.indices.getD (r.path.depth - 1) 0
  let entry ← memory? .memory (readEntry leafTable leafIndex)
  if entry != r.leaf then
    poison
    throw .entryMismatch
  memory? .memory (writeEntry leafTable leafIndex 0)
  modifyCore fun c => c.setRecord k { r with phase := .awaitingUnmapInvalidation }
  finishUnmap ⟨handle⟩

def unmapPage (handle : MappingHandle) : Op n M I SlptFault UnmapOutcome := do
  ensureOperational
  let (k, r) ← propagate ((← get).core.recordIndex handle)
  refuse (r.phase != .active) .invalidPhase
  clearLeaf k r handle

def cancelPendingMap (receipt : MapReceipt) : Op n M I SlptFault UnmapOutcome := do
  ensureOperational
  let (k, r) ← propagate ((← get).core.recordIndex receipt.handle)
  refuse (r.phase != .awaitingMapInvalidation) .staleReceipt
  clearLeaf k r receipt.handle

end Calls

end Sisyphus.Slpt
