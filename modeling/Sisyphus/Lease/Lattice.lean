import Sisyphus.Foundation.Ensures
import Sisyphus.Foundation.Run
import Sisyphus.Foundation.Words

/-!
# The lease lattice

A lease is a record in a fixed table: rights, a lifetime, a quota of uses, and the slot and
generation of the lease it was derived from.  A holder has a token that names the slot, its
generation and a 32-bit seal.  `issueRoot` and `attenuate` fill the first free slot, `admitLease`
spends one use, `revoke` empties the slot, and every emptying or filling moves the slot's
generation on (`nextGeneration`, which wraps around past zero).

`attenuate` and `admitLease` also walk the chain of parents (`validateAncestry`) and refuse when one
of them has been revoked, as far as slot and generation can tell.

Slots are `usize` in the table and sixteen bits wide in a token and in `parentSlot`; the model
keeps the truncation, and with it the reserved value that says *no parent*.  The capability
argument of `issueRoot` and `revoke` carries no data and is left out.
-/

set_option autoImplicit false

namespace Sisyphus.Lease

open Fallible Function Words

/-! ## Rights and tokens -/

@[ext] structure LeaseRights where
  bits : UInt32
  deriving DecidableEq, Repr

namespace LeaseRights

def observe : LeaseRights := ⟨(1 : UInt32) <<< 0⟩
def schedule : LeaseRights := ⟨(1 : UInt32) <<< 1⟩
def resonance : LeaseRights := ⟨(1 : UInt32) <<< 2⟩
def control : LeaseRights := ⟨(1 : UInt32) <<< 3⟩
def delegate : LeaseRights := ⟨(1 : UInt32) <<< 31⟩

def contains (self required : LeaseRights) : Bool := self.bits &&& required.bits == required.bits

def intersect (self other : LeaseRights) : LeaseRights := ⟨self.bits &&& other.bits⟩

theorem contains_refl (r : LeaseRights) : r.contains r = true := by
  rw [contains, UInt32.and_self, beq_self_eq_true]

theorem contains_trans {a b c : LeaseRights} (hab : a.contains b = true)
    (hbc : b.contains c = true) : a.contains c = true := by
  rw [contains, beq_iff_eq] at *
  calc a.bits &&& c.bits = a.bits &&& (b.bits &&& c.bits) := by rw [hbc]
    _ = a.bits &&& b.bits &&& c.bits := (UInt32.and_assoc ..).symm
    _ = c.bits := by rw [hab, hbc]

/-- What `attenuate` stores is what it was asked for, once the check has passed. -/
theorem intersect_eq_of_contains {a b : LeaseRights} (h : a.contains b = true) :
    a.intersect b = b :=
  LeaseRights.ext (beq_iff_eq.mp h)

end LeaseRights

structure LeaseToken where
  raw : UInt64
  deriving DecidableEq

namespace LeaseToken

/-- `LeaseToken::new`. -/
def new (slot generation : UInt16) (tag : UInt32) : LeaseToken :=
  ⟨slot.toUInt64 ||| (generation.toUInt64 <<< 16) ||| (tag.toUInt64 <<< 32)⟩

def slot (t : LeaseToken) : Nat := t.raw.toUInt16.toNat

def generation (t : LeaseToken) : UInt16 := (t.raw >>> 16).toUInt16

def tag (t : LeaseToken) : UInt32 := (t.raw >>> 32).toUInt32

end LeaseToken

/-! ## Records and the table -/

/-- `ROOT_PARENT`. -/
def rootParent : UInt16 := 0xffff

/-- `MAXIMUM_DELEGATION_DEPTH`. -/
def maximumDelegationDepth : UInt8 := 8

structure LeaseRecord where
  active : Bool
  generation : UInt16
  depth : UInt8
  rights : LeaseRights
  parentSlot : UInt16
  parentGeneration : UInt16
  notBefore : UInt64
  expiresAt : UInt64
  quotaLimit : UInt32
  uses : UInt32
  tag : UInt32
  deriving DecidableEq

/-- `LeaseRecord::EMPTY`. -/
def LeaseRecord.empty : LeaseRecord where
  active := false
  generation := 1
  depth := 0
  rights := ⟨0⟩
  parentSlot := rootParent
  parentGeneration := 0
  notBefore := 0
  expiresAt := 0
  quotaLimit := 0
  uses := 0
  tag := 0

/-- `records.get(index)`, as the position of the record found. -/
def slotAt (n index : Nat) : Option (Fin n) :=
  if h : index < n then some ⟨index, h⟩ else none

structure LeaseState (n : Nat) where
  records : Fin n → LeaseRecord
  issuanceNonce : UInt64

inductive LeaseError where
  | capacity
  | invalid
  | forged
  | notYetValid
  | expired
  | exhausted
  | missingRight
  | cannotDelegate
  | rightsAmplification
  | invalidLifetime
  | invalidQuota
  | delegationDepth
  deriving DecidableEq

structure LeaseAdmission where
  rights : LeaseRights
  remainingUses : UInt32
  expiresAt : UInt64
  depth : UInt8

/-- `generation.wrapping_add(1).max(1)`. -/
def nextGeneration (generation : UInt16) : UInt16 := max (generation + 1) 1

/-- `issuance_nonce.wrapping_add(1).max(1)`. -/
def nextNonce (nonce : UInt64) : UInt64 := max (nonce + 1) 1

def mix (state value : UInt64) : UInt64 :=
  let state := state ^^^ (value + 0x9e3779b97f4a7c15)
  let state := rotateLeft state 29
  let state := state * 0xbf58476d1ce4e5b9
  state ^^^ (state >>> 31)

/-- `seal`. -/
def sealTag (secret : UInt64) (slot : Nat) (record : LeaseRecord) (nonce : UInt64) : UInt32 :=
  let state := secret ^^^ rotateLeft nonce 17
  let state := mix state (UInt64.ofNat slot)
  let state := mix state record.generation.toUInt64
  let state := mix state record.rights.bits.toUInt64
  let state := mix state record.notBefore
  let state := mix state record.expiresAt
  let state := mix state record.quotaLimit.toUInt64
  let state := mix state
    (record.parentSlot.toUInt64 ||| (record.parentGeneration.toUInt64 <<< 16))
  (state ^^^ (state >>> 32)).toUInt32

namespace LeaseState

variable {n : Nat}

/-- `LeaseState::new`. -/
def new (n : Nat) : LeaseState n where
  records := fun _ => LeaseRecord.empty
  issuanceNonce := 1

/-- `records.iter().position(|record| !record.active)`. -/
def position (s : LeaseState n) : Option (Fin n) :=
  (List.finRange n).find? fun i => !(s.records i).active

theorem active_of_position {s : LeaseState n} {slot : Fin n} (h : s.position = some slot) :
    (s.records slot).active = false := by
  simpa using List.find?_some h

/-! ## Validation -/

/-- `validate_token_without_time`. -/
def validateTokenWithoutTime (s : LeaseState n) (token : LeaseToken) :
    Except LeaseError (Fin n) :=
  match slotAt n token.slot with
  | none => .error .invalid
  | some index =>
    if !(s.records index).active || (s.records index).generation != token.generation then
      .error .invalid
    else if (s.records index).tag != token.tag then
      .error .forged
    else
      .ok index

/-- `validate_token`. -/
def validateToken (s : LeaseState n) (token : LeaseToken) (nowTick : UInt64) :
    Except LeaseError (Fin n) :=
  match s.validateTokenWithoutTime token with
  | .error e => .error e
  | .ok index =>
    if nowTick < (s.records index).notBefore then
      .error .notYetValid
    else if (s.records index).expiresAt < nowTick then
      .error .expired
    else
      .ok index

/-- The loop of `validate_ancestry`, with the number of parents it may still go to. -/
def climb (s : LeaseState n) : Nat → Fin n → Except LeaseError Unit
  | hops, current =>
    if (s.records current).parentSlot = rootParent then
      .ok ()
    else
      match hops with
      | 0 => .error .delegationDepth
      | hops + 1 =>
        match slotAt n (s.records current).parentSlot.toNat with
        | none => .error .invalid
        | some parent =>
          if !(s.records parent).active ||
              (s.records parent).generation != (s.records current).parentGeneration then
            .error .invalid
          else
            climb s hops parent

/-- `validate_ancestry`. -/
def validateAncestry (s : LeaseState n) (start : Fin n) : Except LeaseError Unit :=
  s.climb maximumDelegationDepth.toNat start

end LeaseState

/-- `validate_lifetime`. -/
def validateLifetime (notBefore expiresAt : UInt64) : Except LeaseError Unit :=
  if expiresAt = 0 ∨ expiresAt ≤ notBefore then .error .invalidLifetime else .ok ()

/-! ## The four calls -/

section Calls

variable {n : Nat}

abbrev Action (n : Nat) := EStateM LeaseError (LeaseState n)

/-- Writes a sealed record into a free slot and moves the nonce on: the common end of `issue_root`
and `attenuate`. -/
def enter (secret : UInt64) (slot : Fin n) (record : LeaseRecord) : Action n LeaseToken := do
  let state ← get
  let sealed := { record with tag := sealTag secret slot record state.issuanceNonce }
  set { state with
    records := update state.records slot sealed
    issuanceNonce := nextNonce state.issuanceNonce : LeaseState n }
  pure (LeaseToken.new (UInt16.ofNat slot) record.generation sealed.tag)

/-- The record that `issue_root` makes. -/
def rootRecord (generation : UInt16) (rights : LeaseRights) (notBefore expiresAt : UInt64)
    (quota : UInt32) : LeaseRecord where
  active := true
  generation := generation
  depth := 0
  rights := rights
  parentSlot := rootParent
  parentGeneration := 0
  notBefore := notBefore
  expiresAt := expiresAt
  quotaLimit := quota
  uses := 0
  tag := 0

def issueRoot (secret : UInt64) (rights : LeaseRights) (notBefore expiresAt : UInt64)
    (quota : UInt32) : Action n LeaseToken := do
  propagate (validateLifetime notBefore expiresAt)
  refuse (quota == 0) .invalidQuota
  let state ← get
  let slot ← orThrow state.position .capacity
  enter secret slot (rootRecord (nextGeneration (state.records slot).generation) rights notBefore
    expiresAt quota)

/-- Adds to the uses of a record. -/
def charge (index : Fin n) (amount : UInt32) : Action n Unit :=
  modify fun state => { state with
    records := update state.records index
      { state.records index with uses := saturatingAdd32 (state.records index).uses amount } }

/-- The record that `attenuate` makes. -/
def childRecord (generation : UInt16) (parentIndex : Fin n) (parent : LeaseRecord)
    (rights : LeaseRights) (expiresAt : UInt64) (quota : UInt32) (nowTick : UInt64) :
    LeaseRecord where
  active := true
  generation := generation
  depth := if parent.depth = 0xff then 0xff else parent.depth + 1
  rights := parent.rights.intersect rights
  parentSlot := UInt16.ofNat parentIndex
  parentGeneration := parent.generation
  notBefore := nowTick
  expiresAt := expiresAt
  quotaLimit := quota
  uses := 0
  tag := 0

def attenuate (secret : UInt64) (parentToken : LeaseToken) (rights : LeaseRights)
    (expiresAt : UInt64) (quota : UInt32) (nowTick : UInt64) : Action n LeaseToken := do
  refuse (quota == 0) .invalidQuota
  let state ← get
  let parentIndex ← propagate (state.validateToken parentToken nowTick)
  propagate (state.validateAncestry parentIndex)
  let parent := state.records parentIndex
  refuse (!parent.rights.contains LeaseRights.delegate) .cannotDelegate
  refuse (maximumDelegationDepth ≤ parent.depth) .delegationDepth
  refuse (!parent.rights.contains rights) .rightsAmplification
  refuse (parent.expiresAt < expiresAt || expiresAt ≤ nowTick) .invalidLifetime
  refuse (saturatingSub32 parent.quotaLimit parent.uses < quota) .invalidQuota
  let childIndex ← orThrow state.position .capacity
  charge parentIndex quota
  enter secret childIndex (childRecord (nextGeneration (state.records childIndex).generation)
    parentIndex parent rights expiresAt quota nowTick)

def admitLease (token : LeaseToken) (required : LeaseRights) (nowTick : UInt64) :
    Action n LeaseAdmission := do
  let state ← get
  let index ← propagate (state.validateToken token nowTick)
  propagate (state.validateAncestry index)
  let record := state.records index
  refuse (!record.rights.contains required) .missingRight
  refuse (record.quotaLimit ≤ record.uses) .exhausted
  charge index 1
  pure
    { rights := record.rights
      remainingUses := saturatingSub32 record.quotaLimit (saturatingAdd32 record.uses 1)
      expiresAt := record.expiresAt
      depth := record.depth }

def revoke (token : LeaseToken) : Action n Unit := do
  let state ← get
  let index ← propagate (state.validateTokenWithoutTime token)
  let vacated :=
    { LeaseRecord.empty with generation := nextGeneration (state.records index).generation }
  set { state with records := update state.records index vacated : LeaseState n }

end Calls

/-! ## Calls as steps -/

inductive Call where
  | issueRoot (rights : LeaseRights) (notBefore expiresAt : UInt64) (quota : UInt32)
  | attenuate (parent : LeaseToken) (rights : LeaseRights) (expiresAt : UInt64) (quota : UInt32)
      (nowTick : UInt64)
  | admitLease (token : LeaseToken) (required : LeaseRights) (nowTick : UInt64)
  | revoke (token : LeaseToken)

inductive Reply where
  | token (token : LeaseToken)
  | admitted (admission : LeaseAdmission)
  | revoked
  | refused (error : LeaseError)

/-- The reply to a call, and the state it leaves. -/
def answer {n : Nat} {α : Type} (wrap : α → Reply) :
    EStateM.Result LeaseError (LeaseState n) α → Reply × LeaseState n
  | .ok a t => (wrap a, t)
  | .error e t => (.refused e, t)

def LeaseState.step {n : Nat} (secret : UInt64) (s : LeaseState n) : Call → Reply × LeaseState n
  | .issueRoot rights notBefore expiresAt quota =>
    answer .token (issueRoot secret rights notBefore expiresAt quota s)
  | .attenuate parent rights expiresAt quota nowTick =>
    answer .token (attenuate secret parent rights expiresAt quota nowTick s)
  | .admitLease token required nowTick => answer .admitted (admitLease token required nowTick s)
  | .revoke token => answer (fun _ => .revoked) (revoke token s)

end Sisyphus.Lease
