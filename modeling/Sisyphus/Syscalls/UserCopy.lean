import Sisyphus.Foundation.Ensures
import Sisyphus.Foundation.Bytes
import Sisyphus.Foundation.Words

/-!
# Copies to and from user memory

A system call that takes a user address does not follow it: it walks the page tables of the active
root itself (`translateUserAddressWithAccess`), page by page, and copies through the direct map of
physical memory.  A walk is accepted only when every entry on it is present and accessible to the
user, is writable if the copy writes, and is not a huge page; each span that is copied has to end
within the part of physical memory that the direct map covers.

Physical memory is a function from addresses to bytes.  The page tables are in it, so
`copyToUser`, whose state the memory is, walks the tables as they are at that moment.
`copyFromUser` leaves the memory alone; its state is the kernel's buffer.  The two loops differ in
the access they ask for and in the direction of the copy, and share the rest (`nextSpan`).
-/

set_option autoImplicit false

namespace Sisyphus.Syscalls

open Fallible Words Bytes

/-! ## Constants -/

def pageSize : Nat := 4096
def userAddressMinimum : UInt64 := 0x1000
def userAddressLimit : UInt64 := 0x800000000000
def pageAddressMask : UInt64 := 0x000ffffffffff000
def entryPresent : UInt64 := 1
def entryWritable : UInt64 := 2
def entryUser : UInt64 := 4
def entryHuge : UInt64 := 0x80

/-- `EARLY_MAPPED_PHYSICAL_LIMIT`. -/
def earlyMappedPhysicalLimit : UInt64 := 0x40000000

/-- `HIGHER_HALF_DIRECT_MAP_BASE`. -/
def higherHalfDirectMapBase : UInt64 := 0xffff800000000000

inductive UserCopyError where
  | invalidRange
  | missingMapping
  | permissionDenied
  | hugePageUnsupported
  | unmappedPhysicalMemory
  deriving DecidableEq

/-! ## Physical memory -/

/-- Physical memory, byte by byte. -/
abbrev Memory := Page

def directMapAddress (physicalAddress : UInt64) : Option UInt64 :=
  if earlyMappedPhysicalLimit ≤ physicalAddress then none
  else checkedAdd higherHalfDirectMapBase physicalAddress

/-- The physical address that a pointer into the direct map stands for. -/
def directMapped (pointer : UInt64) : Nat := pointer.toNat - higherHalfDirectMapBase.toNat

/-- `read_volatile` of a word in physical memory. -/
def readWord (m : Memory) (physical : Nat) : UInt64 := UInt64.ofNat (ofLeBytes (slice m physical 8))

def readActiveEntry (m : Memory) (table : UInt64) (index : Nat) : Option UInt64 :=
  if table &&& 0xfff ≠ 0 ∨ 512 ≤ index then none
  else do
    let physical ← checkedAdd table (UInt64.ofNat (index * 8))
    let stop ← checkedAdd physical 8
    if earlyMappedPhysicalLimit < stop then none
    else do
      let pointer ← directMapAddress physical
      some (readWord m (directMapped pointer))

/-! ## The walk -/

def validUserControlAddress (address : UInt64) : Bool :=
  userAddressMinimum ≤ address && address < userAddressLimit

/-- `(address >> shift) & 0x1ff`. -/
def tableIndex (address shift : UInt64) : Nat := ((address >>> shift) &&& 0x1ff).toNat

/-- The checks on an entry of any level. -/
def checkEntry (write : Bool) (entry : UInt64) : Except UserCopyError Unit :=
  if entry &&& (entryPresent ||| entryUser) ≠ entryPresent ||| entryUser then
    .error .permissionDenied
  else if write = true ∧ entry &&& entryWritable = 0 then
    .error .permissionDenied
  else
    .ok ()

/-- One of the upper three levels: the table that the entry points to. -/
def nextTable (write : Bool) (entry : UInt64) : Except UserCopyError UInt64 := do
  checkEntry write entry
  if entry &&& entryHuge ≠ 0 then .error .hugePageUnsupported else .ok (entry &&& pageAddressMask)

variable (readEntry : UInt64 → Nat → Option UInt64)

/-- `read_entry(table, index).ok_or(MissingMapping)`. -/
def entryOf (table : UInt64) (index : Nat) : Except UserCopyError UInt64 :=
  match readEntry table index with
  | some entry => .ok entry
  | none => .error .missingMapping

/-- The loop over the upper levels. -/
def descend (write : Bool) (table : UInt64) : List Nat → Except UserCopyError UInt64
  | [] => .ok table
  | index :: rest => do
    let entry ← entryOf readEntry table index
    let next ← nextTable write entry
    descend write next rest

def translateUserAddressWithAccess (root address : UInt64) (write : Bool) :
    Except UserCopyError UInt64 :=
  if root = 0 ∨ root &&& 0xfff ≠ 0 ∨ validUserControlAddress address = false then
    .error .invalidRange
  else if 256 ≤ tableIndex address 39 then
    .error .invalidRange
  else do
    let table ← descend readEntry write root
      [tableIndex address 39, tableIndex address 30, tableIndex address 21]
    let leaf ← entryOf readEntry table (tableIndex address 12)
    checkEntry write leaf
    .ok ((leaf &&& pageAddressMask) ||| (address &&& 0xfff))

def translateUserAddress (root address : UInt64) : Except UserCopyError UInt64 :=
  translateUserAddressWithAccess readEntry root address false

def translateUserAddressForWrite (root address : UInt64) : Except UserCopyError UInt64 :=
  translateUserAddressWithAccess readEntry root address true

/-! ## The copies -/

/-- Part of one page, to be copied at once through the direct map. -/
structure Span where
  pointer : UInt64
  length : Nat

/-- The bounds of a span that starts at `physical`. -/
def spanAt (physical : UInt64) (length : Nat) : Except UserCopyError Span :=
  match checkedAdd physical (UInt64.ofNat length) with
  | none => .error .unmappedPhysicalMemory
  | some physicalEnd =>
    if earlyMappedPhysicalLimit < physicalEnd then .error .unmappedPhysicalMemory
    else
      match directMapAddress physical with
      | none => .error .unmappedPhysicalMemory
      | some pointer => .ok ⟨pointer, length⟩

/-- The span that starts at a user address: up to the end of its page, or of the copy. -/
def nextSpan (physical : Except UserCopyError UInt64) (userAddress : UInt64) (remaining : Nat) :
    Except UserCopyError Span := do
  let physical ← physical
  spanAt physical (min (pageSize - (userAddress &&& 0xfff).toNat) remaining)

/-- The range check of both copies. -/
def invalidRange (user : UInt64) (length : Nat) : Bool :=
  2 ^ 64 ≤ user.toNat + length || user < userAddressMinimum ||
    userAddressLimit.toNat < user.toNat + length

/-- `while copied < target.len()`, for at most as many turns as there are bytes. -/
def copyFromUserLoop (m : Memory) (root source : UInt64) :
    Nat → Nat → EStateM UserCopyError (List UInt8) Unit
  | 0, _ => pure ()
  | turns + 1, copied => do
    let target ← get
    if copied < target.length then do
      let userAddress := source + UInt64.ofNat copied
      let span ← propagate (nextSpan (translateUserAddress (readActiveEntry m) root userAddress)
        userAddress (target.length - copied))
      set (target.take copied ++ slice m (directMapped span.pointer) span.length ++
        target.drop (copied + span.length))
      copyFromUserLoop m root source turns (copied + span.length)
    else
      pure ()

/-- `copy_from_user`, on the buffer `target` and with the active root. -/
def copyFromUser (m : Memory) (root source : UInt64) : EStateM UserCopyError (List UInt8) Unit := do
  let target ← get
  if target = [] then pure ()
  else do
    refuse (invalidRange source target.length) .invalidRange
    copyFromUserLoop m root source target.length 0

def copyToUserLoop (root target : UInt64) (source : List UInt8) :
    Nat → Nat → EStateM UserCopyError Memory Unit
  | 0, _ => pure ()
  | turns + 1, copied =>
    if copied < source.length then do
      let m ← get
      let userAddress := target + UInt64.ofNat copied
      let span ← propagate (nextSpan
        (translateUserAddressForWrite (readActiveEntry m) root userAddress)
        userAddress (source.length - copied))
      set (patch m (directMapped span.pointer) ((source.drop copied).take span.length))
      copyToUserLoop root target source turns (copied + span.length)
    else
      pure ()

/-- `copy_to_user`, on the memory and with the active root. -/
def copyToUser (root target : UInt64) (source : List UInt8) : EStateM UserCopyError Memory Unit :=
  if source = [] then pure ()
  else do
    refuse (invalidRange target source.length) .invalidRange
    copyToUserLoop root target source source.length 0

end Sisyphus.Syscalls
