import Sisyphus.Foundation.Fallible
import Sisyphus.Foundation.Run

/-!
# The object table

A model of `object.rs`: a table of reference-counted objects and the handles to them.  A handle
names a slot, its generation and the kind of the object, and carries rights.  `duplicate` makes a
further handle with fewer rights and `close` consumes one; with the last handle the slot is free
again.

All four calls check first and change the table last, so a failed call leaves it alone and a call is
a function to a result with the new table, or an error.  Slots outside the capacity are never
touched.

`Ledger` runs a table for a holder who uses handles as their type makes one do: a handle comes from
`allocate` or `duplicate`, and `close` takes it away.
-/

set_option autoImplicit false

namespace Sisyphus.Objects

open Fallible Function

inductive ObjectKind
  | task
  | addressSpace
  | channel
  | memory
  | driver
  | device
  | policy
  | fabric
  | clock
  deriving DecidableEq

structure Rights where
  bits : UInt16

def Rights.contains (self requested : Rights) : Bool :=
  self.bits &&& requested.bits == requested.bits

structure Handle where
  slot : UInt16
  generation : UInt32
  kind : ObjectKind
  rights : Rights

structure Slot where
  occupied : Bool
  generation : UInt32
  kind : ObjectKind
  maximumRights : Rights
  references : UInt32
  payloadHandle : UInt64

/-- `Slot::EMPTY`. -/
def Slot.empty : Slot := ⟨false, 0, .task, ⟨0⟩, 0, 0⟩

structure ObjectInfo where
  kind : ObjectKind
  payloadHandle : UInt64
  rights : Rights

inductive ObjectError
  | capacityExceeded
  | invalidHandle
  | rightsEscalation
  | insufficientRights
  | referenceOverflow
  deriving DecidableEq

def nextGeneration (generation : UInt32) : UInt32 :=
  let next := generation + 1
  if next = 0 then 1 else next

abbrev ObjectTable := Nat → Slot

/-! ## The calls -/

namespace ObjectTable

variable (capacity : Nat) (slots : ObjectTable)

def allocate (kind : ObjectKind) (payloadHandle : UInt64) (rights : Rights) :
    Except ObjectError (Handle × ObjectTable) := do
  let index ← okOr ((List.range capacity).find? fun i => !(slots i).occupied) .capacityExceeded
  reject (decide (2 ^ 16 ≤ index)) .capacityExceeded
  let generation := nextGeneration (slots index).generation
  pure (⟨UInt16.ofNat index, generation, kind, rights⟩,
    update slots index ⟨true, generation, kind, rights, 1, payloadHandle⟩)

/-- `validate_slot`, as the index of the slot found. -/
def validateSlot (handle : Handle) : Except ObjectError Nat := do
  let index := handle.slot.toNat
  reject (decide (capacity ≤ index)) .invalidHandle
  let slot := slots index
  reject (!slot.occupied || slot.generation != handle.generation || slot.kind != handle.kind)
    .invalidHandle
  pure index

def duplicate (handle : Handle) (rights : Rights) : Except ObjectError (Handle × ObjectTable) := do
  reject (!handle.rights.contains rights) .rightsEscalation
  let index ← validateSlot capacity slots handle
  let slot := slots index
  reject (!slot.maximumRights.contains rights) .rightsEscalation
  reject (slot.references.toNat + 1 == 2 ^ 32) .referenceOverflow
  pure ({ handle with rights },
    update slots index { slot with references := slot.references + 1 })

def resolve (handle : Handle) (required : Rights) : Except ObjectError ObjectInfo := do
  reject (!handle.rights.contains required) .insufficientRights
  let index ← validateSlot capacity slots handle
  pure ⟨(slots index).kind, (slots index).payloadHandle, handle.rights⟩

def close (handle : Handle) : Except ObjectError (Bool × ObjectTable) := do
  let index ← validateSlot capacity slots handle
  let slot := slots index
  let references := slot.references - 1
  if references = 0 then
    pure (true, update slots index
      { slot with references, occupied := false, maximumRights := ⟨0⟩, payloadHandle := 0 })
  else
    pure (false, update slots index { slot with references })

end ObjectTable

/-! ## A holder of handles -/

/-- A handle with what there is to remember of it: the object it was made for, as the allocation it
comes from, and the rights of the handles it was duplicated from. -/
structure Issue where
  handle : Handle
  object : Nat
  kind : ObjectKind
  payload : UInt64
  ancestors : List Rights

structure Ledger where
  slots : ObjectTable
  live : List Issue
  allocated : Nat

inductive Call
  | allocate (kind : ObjectKind) (payload : UInt64) (rights : Rights)
  | duplicate (position : Nat) (rights : Rights)
  | resolve (position : Nat) (required : Rights)
  | close (position : Nat)

namespace Ledger

def new : Ledger := ⟨fun _ => Slot.empty, [], 0⟩

/-- A call with one of the handles that the holder has, and the ledger after it. -/
def perform (capacity : Nat) (l : Ledger) : Call → Ledger
  | .allocate kind payload rights =>
    match l.slots.allocate capacity kind payload rights with
    | .ok (handle, slots) =>
      ⟨slots, ⟨handle, l.allocated, kind, payload, []⟩ :: l.live, l.allocated + 1⟩
    | .error _ => l
  | .duplicate position rights =>
    match l.live[position]? with
    | some issue =>
      match l.slots.duplicate capacity issue.handle rights with
      | .ok (handle, slots) =>
        { l with
          slots
          live := { issue with handle, ancestors := issue.handle.rights :: issue.ancestors } ::
            l.live }
      | .error _ => l
    | none => l
  | .resolve _ _ => l
  | .close position =>
    match l.live[position]? with
    | some issue =>
      match l.slots.close capacity issue.handle with
      | .ok (_, slots) => { l with slots, live := l.live.eraseIdx position }
      | .error _ => l
    | none => l

def step (capacity : Nat) (l : Ledger) (call : Call) : Unit × Ledger :=
  ((), l.perform capacity call)

end Ledger

end Sisyphus.Objects
