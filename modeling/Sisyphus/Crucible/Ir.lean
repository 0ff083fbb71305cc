import Sisyphus.Foundation.Fallible
import Sisyphus.Helix.Queue

/-!
# The mutation engine

Crucible rewrites a package's bytecode.  A program is decoded into a fixed array of instructions,
and passes work on that array in place: the inliner replaces a call site by a function body, the
unroller copies the body of a loop, dead-code elimination overwrites what it cannot reach, and
compaction closes the gaps.

A pass is an action on the `Workspace`, and it stops with a `Halt` where the source would panic: on
an index outside an array, and on an overflow, which is what arithmetic does under the checks of a
development build.  The loops whose end is not evident from their header take fuel, and `Halt`
also says that it ran out.  An instruction array is a function of the index, with every access
checked against its length.
-/

set_option autoImplicit false

namespace Sisyphus.Crucible

open Fallible Function
open Helix (OptimizationFocus)

def maxIrInstructions : Nat := 16384

def maxInlineDepth : Nat := 4

def maxUnrollFactor : Nat := 8

def maxFunctions : Nat := 64

def instructionBytes : Nat := 4

/-! ## Instructions -/

/-- What the opcode byte stands for. -/
inductive Opcode
  | nop
  | mov
  | add
  | jmp
  | jz
  | call
  | ret
  | loopBegin
  | loopEnd
  | inlineSite
  | dead
  | other
deriving DecidableEq

def Opcode.ofByte (byte : UInt8) : Opcode :=
  if byte = 0x00 then .nop
  else if byte = 0x01 then .mov
  else if byte = 0x02 then .add
  else if byte = 0x03 then .jmp
  else if byte = 0x04 then .jz
  else if byte = 0x05 then .call
  else if byte = 0x06 then .ret
  else if byte = 0x07 then .loopBegin
  else if byte = 0x08 then .loopEnd
  else if byte = 0x09 then .inlineSite
  else if byte = 0xFF then .dead
  else .other

structure Instr where
  opcode : UInt8
  a : UInt8
  b : UInt8
  flags : UInt8

namespace Instr

def nop : Instr := ⟨0x00, 0, 0, 0⟩

def dead : Instr := ⟨0xFF, 0, 0, 0⟩

def op (instr : Instr) : Opcode := Opcode.ofByte instr.opcode

def toBytes (instr : Instr) : List UInt8 := [instr.opcode, instr.a, instr.b, instr.flags]

/-- The target of a jump at `pc`: the first operand is a signed displacement. -/
def target (instr : Instr) (pc : Nat) : Int := pc + instr.a.toInt8.toInt

end Instr

/-- The decoded instructions; those from `len` on are left over from earlier or were never set. -/
structure IrBuffer where
  instrs : Nat → Instr
  len : Nat
  len_le : len ≤ maxIrInstructions

/-- `decode_from`: as many whole instructions as there are bytes for and the array holds. -/
def IrBuffer.decodeFrom (bytes : List UInt8) : IrBuffer where
  instrs i :=
    if i < min (bytes.length / instructionBytes) maxIrInstructions then
      ⟨bytes.getD (i * instructionBytes) 0, bytes.getD (i * instructionBytes + 1) 0,
        bytes.getD (i * instructionBytes + 2) 0, bytes.getD (i * instructionBytes + 3) 0⟩
    else .nop
  len := min (bytes.length / instructionBytes) maxIrInstructions
  len_le := Nat.min_le_right _ _

/-- `encode_to`: what is written to an output of the given size. -/
def IrBuffer.encodeTo (buf : IrBuffer) (room : Nat) : List UInt8 :=
  (List.range (min buf.len (room / instructionBytes))).flatMap fun i => (buf.instrs i).toBytes

structure FnEntry where
  fnId : UInt8
  start : UInt64
  len : UInt64
  inlineCost : UInt8

/-- The registered functions, in the order of their registration. -/
structure FunctionTable where
  entries : List FnEntry
  capacity : entries.length ≤ maxFunctions

namespace FunctionTable

def new : FunctionTable := ⟨[], Nat.zero_le _⟩

def register (table : FunctionTable) (entry : FnEntry) : Bool × FunctionTable :=
  if h : table.entries.length ≥ maxFunctions then (false, table)
  else
    (true, ⟨table.entries ++ [entry], by
      rw [List.length_append]
      exact Nat.not_le.mp h⟩)

def lookup (table : FunctionTable) (fnId : UInt8) : Option FnEntry :=
  table.entries.find? fun entry => entry.fnId == fnId

end FunctionTable

/-! ## The workspace -/

structure InlinerPass where
  inlineDepth : Nat
  sitesInlined : UInt32
  bytesSaved : UInt32

structure DcePass where
  deadCount : UInt32
  bytesRemoved : UInt32

structure UnrollerPass where
  loopsUnrolled : UInt32
  instrsAdded : UInt32

structure CrucibleEngine where
  inliner : InlinerPass
  dce : DcePass
  unroller : UnrollerPass

def CrucibleEngine.new : CrucibleEngine := ⟨⟨0, 0, 0⟩, ⟨0, 0⟩, ⟨0, 0⟩⟩

/-- What a call of `mutate` works on. -/
structure Workspace where
  engine : CrucibleEngine
  buf : IrBuffer

/-- Why an action stopped before its end. -/
inductive Halt
  | overflow
  | outOfBounds
  | outOfFuel
deriving DecidableEq

abbrev Pass := EStateM Halt Workspace

/-- `buf.instrs[i]`. -/
def fetch (i : Nat) : Pass Instr := do
  let w ← get
  refuse (decide (i ≥ maxIrInstructions)) .outOfBounds
  return w.buf.instrs i

/-- `buf.instrs[i] = instr`. -/
def store (i : Nat) (instr : Instr) : Pass Unit := do
  refuse (decide (i ≥ maxIrInstructions)) .outOfBounds
  modify fun w => { w with buf.instrs := update w.buf.instrs i instr }

/-- `buf.len = (len).min(MAX_IR_INSTRUCTIONS)`; compaction, which leaves the minimum out, only ever
sets a smaller length than there was. -/
def setLen (len : Nat) : Pass Unit :=
  modify fun w => { w with buf := ⟨w.buf.instrs, min len maxIrInstructions, Nat.min_le_right _ _⟩ }

/-- Addition of `usize`. -/
def addUsize (x y : Nat) : Pass Nat := do
  refuse (decide (x + y ≥ 2 ^ 64)) .overflow
  return x + y

/-- Addition of `u32`. -/
def addU32 (x y : UInt32) : Pass UInt32 := do
  refuse (decide (x.toNat + y.toNat ≥ 2 ^ 32)) .overflow
  return x + y

/-- The loop that moves the `count` instructions from `start` on to the right by `shift`, the last
one first. -/
def shiftRight (start count shift : Nat) : Pass Unit :=
  forM (List.range count).reverse fun k => do
    if start + k + shift < maxIrInstructions then
      let instr ← fetch (start + k)
      store (start + k + shift) instr

/-! ## The inliner -/

section Inliner

variable (bodyBuf : Nat → Instr) (table : FunctionTable)

/-- Copies a function body to position `i`. -/
def copyBody (i : Nat) (entry : FnEntry) : Pass Unit :=
  forM (List.range entry.len.toNat) fun k => do
    let src ← addUsize entry.start.toNat k
    if i + k < maxIrInstructions ∧ src < maxIrInstructions then
      store (i + k) (bodyBuf src)

/-- Moves everything after `i` rightward by `shift`. -/
def makeRoom (i shift : Nat) : Pass Unit := do
  let w ← get
  if shift > 0 then
    shiftRight (i + 1) (w.buf.len - (i + 1)) shift
    setLen (w.buf.len + shift)

/-- Counts a replaced site. -/
def countSite (inlineCost : UInt8) : Pass Unit := do
  let w ← get
  let sitesInlined ← addU32 w.engine.inliner.sitesInlined 1
  let bytesSaved ← addU32 w.engine.inliner.bytesSaved inlineCost.toUInt32
  set { w with
    engine.inliner.sitesInlined := sitesInlined
    engine.inliner.bytesSaved := bytesSaved }

/-- Replaces the site at `i` by the body of `entry`. -/
def expand (i : Nat) (entry : FnEntry) : Pass Unit := do
  makeRoom i (entry.len.toNat - 1)
  copyBody bodyBuf i entry
  countSite entry.inlineCost

/-- The loop of `InlinerPass::run`.  After a replacement it looks at the same position again. -/
def inlineLoop : Nat → Nat → Pass Unit
  | 0, _ => throw .outOfFuel
  | fuel + 1, i => do
    let w ← get
    if i < w.buf.len then
      let instr ← fetch i
      if instr.op ≠ .inlineSite then inlineLoop fuel (i + 1)
      else
        match table.lookup instr.a with
        | none => inlineLoop fuel (i + 1)
        | some entry =>
          let total ← addUsize w.buf.len entry.len.toNat
          if total > maxIrInstructions then inlineLoop fuel (i + 1)
          else
            expand bodyBuf i entry
            inlineLoop fuel i

def runInliner (fuel : Nat) : Pass Unit := do
  let w ← get
  if w.engine.inliner.inlineDepth < maxInlineDepth then
    modify fun w => { w with engine.inliner.inlineDepth := w.engine.inliner.inlineDepth + 1 }
    inlineLoop bodyBuf table fuel 0
    modify fun w => { w with engine.inliner.inlineDepth := w.engine.inliner.inlineDepth - 1 }

end Inliner

/-! ## Dead-code elimination -/

def bitsetWords : Nat := maxIrInstructions / 64 + 1

/-- The local state of the reachability search: the bitset, all that was ever queued, the oldest
first, and how much of it has been taken out. -/
structure Frontier where
  reachable : Nat → Bool
  queue : List Nat
  qhead : Nat

/-- Marks and queues an instruction that has not been reached before. -/
def visit (f : Frontier) (next : Nat) : Pass Frontier := do
  refuse (decide (next / 64 ≥ bitsetWords)) .outOfBounds
  if f.reachable next then return f
  else
    return { f with
      reachable := update f.reachable next true
      queue := if f.queue.length < maxIrInstructions then f.queue ++ [next] else f.queue }

/-- The sequential successor of the instruction at `pc`, unless it is a jump or a return. -/
def visitNext (f : Frontier) (pc len : Nat) (instr : Instr) : Pass Frontier :=
  if instr.op ≠ .jmp ∧ instr.op ≠ .ret ∧ pc + 1 < len then visit f (pc + 1) else pure f

/-- The target of the jump at `pc`, if it is one and stays inside the program. -/
def visitTarget (f : Frontier) (pc len : Nat) (instr : Instr) : Pass Frontier :=
  if (instr.op = .jmp ∨ instr.op = .jz) ∧ 0 ≤ instr.target pc ∧ instr.target pc < len then
    visit f (instr.target pc).toNat
  else pure f

/-- The search of `DcePass::run`. -/
def reach : Nat → Frontier → Pass Frontier
  | 0, _ => throw .outOfFuel
  | fuel + 1, f =>
    match f.queue[f.qhead]? with
    | none => pure f
    | some pc => do
      let w ← get
      if pc ≥ w.buf.len then reach fuel { f with qhead := f.qhead + 1 }
      else
        let instr ← fetch pc
        if instr.op = .dead then reach fuel { f with qhead := f.qhead + 1 }
        else
          let f ← visitNext { f with qhead := f.qhead + 1 } pc w.buf.len instr
          let f ← visitTarget f pc w.buf.len instr
          reach fuel f

/-- Overwrites the instruction at `i` if it was not reached. -/
def bury (reachable : Nat → Bool) (i : Nat) : Pass Unit := do
  let instr ← fetch i
  if reachable i = false ∧ instr.op ≠ .dead then
    store i .dead
    let w ← get
    let deadCount ← addU32 w.engine.dce.deadCount 1
    let bytesRemoved ← addU32 w.engine.dce.bytesRemoved 4
    set { w with engine.dce := ⟨deadCount, bytesRemoved⟩ }

def runDce (fuel : Nat) : Pass Unit := do
  let w ← get
  if w.buf.len ≠ 0 then
    let f ← reach fuel ⟨fun i => i == 0, [0], 0⟩
    forM (List.range w.buf.len) (bury f.reachable)

/-! ## The unroller -/

/-- The loop of `find_loop_end` over the `count` instructions from `j` on. -/
def scanLoopEnd (instrs : Nat → Instr) : Nat → Nat → Nat → Option Nat
  | 0, _, _ => none
  | count + 1, j, depth =>
    match (instrs j).op with
    | .loopBegin => scanLoopEnd instrs count (j + 1) (depth + 1)
    | .loopEnd => if depth = 1 then some j else scanLoopEnd instrs count (j + 1) (depth - 1)
    | _ => scanLoopEnd instrs count (j + 1) depth

/-- The `LOOP_END` that closes the loop begun at `beginIdx`. -/
def IrBuffer.findLoopEnd (buf : IrBuffer) (beginIdx : Nat) : Option Nat :=
  scanLoopEnd buf.instrs (buf.len - (beginIdx + 1)) (beginIdx + 1) 1

/-- The size of the array a loop body is captured in. -/
def scratchLen : Nat := 256

/-- Reads the captured body. -/
def scratch (body : Nat → Instr) (k : Nat) : Pass Instr := do
  refuse (decide (k ≥ scratchLen)) .outOfBounds
  return body k

/-- Captures the first instructions of a loop body. -/
def capture (loopStart bodyLen : Nat) : Pass (Nat → Instr) :=
  (List.range (min bodyLen scratchLen)).foldlM (fun body k => do
    let instr ← fetch (loopStart + k)
    return update body k instr) fun _ => .nop

/-- Writes the copies `1..tripCount` of the body. -/
def writeCopies (body : Nat → Instr) (insertAt bodyLen tripCount : Nat) : Pass Unit :=
  forM (List.range (tripCount - 1)) fun copy =>
    forM (List.range bodyLen) fun k => do
      if insertAt + copy * bodyLen + k < maxIrInstructions then
        let instr ← scratch body k
        store (insertAt + copy * bodyLen + k) instr

/-- Replaces the loop from `i` to `loopEnd` by copies of its body. -/
def unrollAt (i loopEnd tripCount : Nat) : Pass Unit := do
  let bodyLen := loopEnd - (i + 1)
  let body ← capture (i + 1) bodyLen
  store i .nop
  store loopEnd .nop
  let w ← get
  let insertAt := loopEnd + 1
  let extra := bodyLen * (tripCount - 1)
  shiftRight insertAt (w.buf.len - insertAt) extra
  writeCopies body insertAt bodyLen tripCount
  setLen (w.buf.len + extra)
  let w ← get
  let loopsUnrolled ← addU32 w.engine.unroller.loopsUnrolled 1
  let instrsAdded ← addU32 w.engine.unroller.instrsAdded extra.toUInt32
  set { w with engine.unroller := ⟨loopsUnrolled, instrsAdded⟩ }

/-- The end and the trip count of the loop the unroller takes at `i`: a loop begin with a count of
at least two, a matching end, a body, and room for its copies in a program of length `len`. -/
def IrBuffer.unrollable (buf : IrBuffer) (len i : Nat) : Option (Nat × Nat) :=
  if (buf.instrs i).op = .loopBegin then
    let tripCount := min (buf.instrs i).a.toNat maxUnrollFactor
    if tripCount < 2 then none
    else
      match buf.findLoopEnd i with
      | none => none
      | some loopEnd =>
        let bodyLen := loopEnd - (i + 1)
        if bodyLen = 0 ∨ bodyLen * tripCount + len > maxIrInstructions then none
        else some (loopEnd, tripCount)
  else none

/-- The loop of `UnrollerPass::run`. -/
def unrollLoop : Nat → Nat → Pass Unit
  | 0, _ => throw .outOfFuel
  | fuel + 1, i => do
    let w ← get
    if i < w.buf.len then
      let _ ← fetch i
      match w.buf.unrollable w.buf.len i with
      | none => unrollLoop fuel (i + 1)
      | some (loopEnd, tripCount) =>
        unrollAt i loopEnd tripCount
        unrollLoop fuel (loopEnd + 1 + (loopEnd - (i + 1)) * (tripCount - 1))

def runUnroller (fuel : Nat) : Pass Unit := unrollLoop fuel 0

/-! ## Compaction and the pipeline -/

/-- Moves the instruction at `read` to `write` unless it is dead or does nothing. -/
def repack (write read : Nat) : Pass Nat := do
  let instr ← fetch read
  if instr.op ≠ .dead ∧ instr.op ≠ .nop then
    store write instr
    return write + 1
  else return write

def compact : Pass Unit := do
  let w ← get
  let write ← (List.range w.buf.len).foldlM repack 0
  setLen write

/-- The passes of an optimization focus, in their order. -/
def optimize (fuel : Nat) (bodyBuf : Nat → Instr) (table : FunctionTable) :
    OptimizationFocus → Pass Unit
  | .maximumThroughput => do
    runInliner bodyBuf table fuel
    runUnroller fuel
    runDce fuel
  | .thermalEfficiency => runDce fuel
  | .memoryCompression => do
    runDce fuel
    compact

/-- `mutate`, from the bytes of a program to those written to an output of the given size. -/
def CrucibleEngine.mutate (fuel : Nat) (bodyBuf : Nat → Instr) (table : FunctionTable)
    (focus : OptimizationFocus) (input : List UInt8) (room : Nat) :
    EStateM Halt CrucibleEngine (List UInt8) := fun engine =>
  match optimize fuel bodyBuf table focus ⟨engine, .decodeFrom input⟩ with
  | .ok () w => .ok (w.buf.encodeTo room) w.engine
  | .error halt w => .error halt w.engine

end Sisyphus.Crucible
