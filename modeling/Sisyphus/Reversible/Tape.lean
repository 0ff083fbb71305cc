import Sisyphus.Foundation.Run
import Mathlib.Data.ZMod.Basic

/-!
# The reversible tape

A model of `rev_tape.rs`.  A `RevWorld` has counters, capability words, a table and a FIFO in a ring
of 64 cells.  `forward` carries out one operation and returns the witness that `inverse` needs to
take it back; a fault leaves the world as `forward` had it by then.  `RevTape.apply` writes down the
operations that succeed, `abort` takes them back from the last to the first, and `commit` forgets
them.

Positions in the ring are residues modulo 64, as both operations on the queue keep them.  Of a
witness's four words two are ever used, and of a step's arguments the first.
-/

set_option autoImplicit false

namespace Sisyphus.Reversible

open Function

/-- `TAPE_CAP`. -/
def tapeCap : Nat := 256

inductive RevFault
  | overflow
  | underflow
  | brokenInverse
  | isSealed
  | badWitness
  deriving DecidableEq

inductive MutOp
  | counterAdd
  | capOr
  | capAndNot
  | tableInstall
  | tableClear
  | queuePush
  | queuePop
  deriving DecidableEq

structure Witness where
  first : UInt64
  second : UInt64

structure RevStep where
  op : MutOp
  target : UInt32
  arg0 : UInt64
  witness : Witness

structure RevWorld where
  counters : Nat → Int64
  caps : Nat → UInt64
  table : Nat → UInt64
  queue : ZMod 64 → UInt32
  qHead : ZMod 64
  qTail : ZMod 64
  qLen : Nat

/-- `TABLE_EMPTY`. -/
def tableEmpty : UInt64 := 0

namespace RevWorld

def new : RevWorld := ⟨fun _ => 0, fun _ => 0, fun _ => tableEmpty, fun _ => 0, 0, 0, 0⟩

/-- The logical contents of the FIFO, oldest first. -/
def contents (w : RevWorld) : List UInt32 :=
  (List.range w.qLen).map fun k : Nat => w.queue (w.qHead + (k : ZMod 64))

/-- A capability word is replaced: the common part of `CapOr` and `CapAndNot`. -/
def changeCap (w : RevWorld) (i : Nat) (value : UInt64) : Except RevFault Witness × RevWorld :=
  if 32 ≤ i then (.error .brokenInverse, w)
  else (.ok ⟨w.caps i, 0⟩, { w with caps := update w.caps i value })

def forward (w : RevWorld) (step : RevStep) : Except RevFault Witness × RevWorld :=
  let i := step.target.toNat
  match step.op with
  | .counterAdd =>
    if 32 ≤ i then (.error .brokenInverse, w)
    else (.ok ⟨(w.counters i).toUInt64, 0⟩,
      { w with counters := update w.counters i (w.counters i + step.arg0.toInt64) })
  | .capOr => w.changeCap i (w.caps i ||| step.arg0)
  | .capAndNot => w.changeCap i (w.caps i &&& ~~~step.arg0)
  | .tableInstall =>
    if 64 ≤ i ∨ w.table i ≠ tableEmpty then (.error .brokenInverse, w)
    else (.ok ⟨tableEmpty, 0⟩, { w with table := update w.table i step.arg0 })
  | .tableClear =>
    if 64 ≤ i then (.error .brokenInverse, w)
    else if w.table i ≠ step.arg0 then (.error .badWitness, w)
    else (.ok ⟨w.table i, 0⟩, { w with table := update w.table i tableEmpty })
  | .queuePush =>
    if 64 ≤ w.qLen then (.error .overflow, w)
    else (.ok ⟨UInt64.ofNat w.qTail.val, 0⟩,
      { w with
        queue := update w.queue w.qTail step.arg0.toUInt32
        qTail := w.qTail + 1
        qLen := w.qLen + 1 })
  | .queuePop =>
    if w.qLen = 0 then (.error .underflow, w)
    else
      let v := (w.queue w.qHead).toUInt64
      let popped := { w with qHead := w.qHead + 1, qLen := w.qLen - 1 }
      -- the comparison comes when the value is already out of the queue
      if step.arg0 ≠ 0 ∧ step.arg0 ≠ v then (.error .badWitness, popped)
      else (.ok ⟨v, UInt64.ofNat w.qHead.val⟩, popped)

def inverse (w : RevWorld) (step : RevStep) : Except RevFault Unit × RevWorld :=
  let i := step.target.toNat
  let word := step.witness.first
  match step.op with
  | .counterAdd => (.ok (), { w with counters := update w.counters i word.toInt64 })
  | .capOr | .capAndNot => (.ok (), { w with caps := update w.caps i word })
  | .tableInstall =>
    if w.table i ≠ step.arg0 then (.error .brokenInverse, w)
    else (.ok (), { w with table := update w.table i word })
  | .tableClear => (.ok (), { w with table := update w.table i word })
  | .queuePush =>
    if w.qLen = 0 then (.error .brokenInverse, w)
    else (.ok (), { w with qTail := (word.toNat : ZMod 64), qLen := w.qLen - 1 })
  | .queuePop =>
    let head : ZMod 64 := step.witness.second.toNat
    (.ok (), { w with
      qHead := head
      queue := update w.queue head word.toUInt32
      qLen := w.qLen + 1 })

end RevWorld

/-- The tape, with the steps that `len` counts, last one first. -/
structure RevTape where
  steps : List RevStep
  isSealed : Bool
  epoch : UInt64

def RevTape.commit (tape : RevTape) : RevTape := ⟨[], false, tape.epoch + 1⟩

/-- A tape and the world it writes to. -/
structure Session where
  tape : RevTape
  world : RevWorld

/-- The step on the tape when its operation succeeded, and the world in any case. -/
def Session.record (s : Session) (step : RevStep) :
    Except RevFault Witness × RevWorld → Except RevFault Unit × Session
  | (.error fault, w) => (.error fault, ⟨s.tape, w⟩)
  | (.ok witness, w) =>
    (.ok (), ⟨{ s.tape with steps := { step with witness } :: s.tape.steps }, w⟩)

def Session.apply (s : Session) (step : RevStep) : Except RevFault Unit × Session :=
  if s.tape.isSealed then (.error .isSealed, s)
  else if tapeCap ≤ s.tape.steps.length then (.error .overflow, s)
  else s.record step (s.world.forward step)

/-- The loop of `abort`: what happened, the steps that are left, and the world. -/
def unwind : List RevStep → RevWorld → Except RevFault Unit × List RevStep × RevWorld
  | [], w => (.ok (), [], w)
  | step :: rest, w =>
    match w.inverse step with
    | (.error fault, w') => (.error fault, step :: rest, w')
    | (.ok (), w') => unwind rest w'

def Session.abort (s : Session) : Except RevFault Unit × Session :=
  if s.tape.isSealed then (.error .isSealed, s)
  else
    let (result, steps, w) := unwind s.tape.steps s.world
    (result, ⟨{ s.tape with steps }, w⟩)

end Sisyphus.Reversible
