import Sisyphus.Foundation.Ensures
import Sisyphus.Foundation.Words

/-!
# Page storage for second-level tables

The page-table core of `hw/vtd_slpt.rs` does not touch memory itself.  It is generic over two
traits: `SlptPageMemory`, which stores table frames and may fail at any call, and
`SlptInvalidator`, which flushes the hardware's translation caches and may fail too.

`Contract` is what the documentation of the first trait asks of an implementation, in terms of
two views of its state, the frames that the core owns and the entries they hold.  A failing call
leaves both alone; a frame that is allocated was not owned; and a call for a frame that the core
does not own has no effect on the frames it does.  There is no contract for the second trait: an
invalidation may fail any number of times, and changes nothing that the core can see.
-/

set_option autoImplicit false

namespace Sisyphus.Slpt

open Fallible Words

def pageShift : Nat := 12
def pageSize : UInt64 := 4096
abbrev entriesPerTable : Nat := 512
def maximumLevels : Nat := 5
def physicalPageMask : UInt64 := 0x000ffffffffff000
def readBit : UInt64 := 1
def writeBit : UInt64 := 2
def permissionMask : UInt64 := readBit ||| writeBit

/-- An index into a table. -/
abbrev TableIndex := Fin entriesPerTable

/-- The `u64` an implementation of the page memory describes its failure with. -/
abbrev SlptMemoryError := UInt64

/-- The `u64` an invalidation failure is described with. -/
abbrev SlptInvalidationError := UInt64

/-- The address of a table: a page-aligned, non-zero physical address.  The source's type can
only be built by a check that says so. -/
structure SlptFrame where
  address : UInt64
  nonzero : address ≠ 0
  field : Field physicalPageMask address

def SlptFrame.fromPhysicalAddress (address : UInt64) : Option SlptFrame :=
  if h : address ≠ 0 ∧ address &&& (pageSize - 1) = 0 ∧ Field physicalPageMask address then
    some ⟨address, h.1, h.2.2⟩
  else none

theorem SlptFrame.fromPhysicalAddress_address (f : SlptFrame) :
    fromPhysicalAddress f.address = some f := by
  have hlow : f.address &&& (pageSize - 1) = 0 := f.field.and_eq_zero (by decide)
  rw [fromPhysicalAddress, dif_pos ⟨f.nonzero, hlow, f.field⟩]

theorem SlptFrame.address_inj {f g : SlptFrame} (h : f.address = g.address) : f = g := by
  cases g
  cases h
  rfl

instance : DecidableEq SlptFrame := fun f g =>
  decidable_of_iff (f.address = g.address) ⟨SlptFrame.address_inj, congrArg SlptFrame.address⟩

/-- The entry that links to a table. -/
def tablePointer (f : SlptFrame) : UInt64 := f.address ||| permissionMask

/-! ## The two traits -/

class SlptPageMemory (M : Type) where
  allocateTable : EStateM SlptMemoryError M SlptFrame
  zeroTable : SlptFrame → EStateM SlptMemoryError M Unit
  readEntry : SlptFrame → TableIndex → EStateM SlptMemoryError M UInt64
  writeEntry : SlptFrame → TableIndex → UInt64 → EStateM SlptMemoryError M Unit
  releaseTable : SlptFrame → EStateM SlptMemoryError M Unit

class SlptInvalidator (I : Type) where
  invalidateAfterPageTableChange : UInt64 → EStateM SlptInvalidationError I Unit

open SlptPageMemory

/-! ## The contract -/

/-- Two views of a page memory. -/
structure View (M : Type) where
  /-- The frames that the core owns: its root and what it was given and did not give back. -/
  owned : M → SlptFrame → Prop
  entry : M → SlptFrame → TableIndex → UInt64

namespace View

variable {M : Type} (v : View M)

/-- Nothing that the core can see has changed. -/
structure Same (m m' : M) : Prop where
  owned : ∀ f, v.owned m' f ↔ v.owned m f
  entry : ∀ f i, v.owned m f → v.entry m' f i = v.entry m f i

/-- The entries of owned frames are those of `m` but for what `new` says. -/
structure Wrote (m m' : M) (f : SlptFrame) (new : TableIndex → Option UInt64) : Prop where
  owned : ∀ g, v.owned m' g ↔ v.owned m g
  set : v.owned m f → ∀ i e, new i = some e → v.entry m' f i = e
  entry : ∀ g i, v.owned m g → ¬(g = f ∧ (new i).isSome) → v.entry m' g i = v.entry m g i

theorem Same.refl (m : M) : v.Same m m := ⟨fun _ => Iff.rfl, fun _ _ _ => rfl⟩

variable {v}

theorem Same.trans {m m' m'' : M} (h : v.Same m m') (h' : v.Same m' m'') : v.Same m m'' :=
  ⟨fun f => (h'.owned f).trans (h.owned f),
    fun f i hf => (h'.entry f i ((h.owned f).mpr hf)).trans (h.entry f i hf)⟩

end View

/-- What the core may rely on. -/
structure Contract (M : Type) [SlptPageMemory M] extends View M where
  allocate : ∀ m, Ensures (allocateTable : EStateM SlptMemoryError M SlptFrame) m
    (fun f m' => ¬owned m f ∧ (∀ g, owned m' g ↔ owned m g ∨ g = f) ∧
      ∀ g i, owned m g → entry m' g i = entry m g i)
    (fun _ m' => toView.Same m m')
  zero : ∀ f m, Ensures (zeroTable f) m
    (fun _ m' => toView.Wrote m m' f fun _ => some 0) (fun _ m' => toView.Same m m')
  read : ∀ f i m, Ensures (readEntry f i) m
    (fun e m' => toView.Same m m' ∧ (owned m f → e = entry m f i)) (fun _ m' => toView.Same m m')
  write : ∀ f i e m, Ensures (writeEntry f i e) m
    (fun _ m' => toView.Wrote m m' f fun j => if j = i then some e else none)
    (fun _ m' => toView.Same m m')
  release : ∀ f m, Ensures (releaseTable f) m
    (fun _ m' => (∀ g, owned m' g ↔ owned m g ∧ g ≠ f) ∧
      ∀ g i, owned m' g → entry m' g i = entry m g i)
    (fun _ m' => toView.Same m m')

end Sisyphus.Slpt
