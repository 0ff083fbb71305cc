import Sisyphus.Foundation.Ensures
import Sisyphus.Xhci.Trb

/-!
# The host controller and the memory it shares with the driver

The driver sees its storage through `XhciRingStorage`: a write is refused before it has changed
anything, or it becomes visible byte by byte, in order.  At the other end of the same memory is the
controller.  It reads the command ring at its dequeue pointer, takes a block whose cycle bit is its
own cycle state, follows link blocks, and posts events.

Everything that is left open is up to an `Environment`: what the controller does before each single
byte that the driver writes, and which of the driver's reads and writes are refused.  The controller
may post any event in any place at any time, in one go, with one reservation: it reports a command
once, and after it has executed it.
-/

set_option autoImplicit false

namespace Sisyphus.Xhci

open Bytes Fallible Function

inductive XhciDmaPurpose where
  | dcbaa
  | commandRing
  | eventRing
  | eventRingSegmentTable
  | scratchpadPointerArray
  | scratchpadBuffers
  deriving DecidableEq

inductive XhciDmaRegionPhase where
  | empty
  | frameOwned
  | zeroed
  | ready
  | releasing
  | releaseDebt
  | released
  deriving DecidableEq

structure XhciDmaRegionRecord where
  phase : XhciDmaRegionPhase
  generation : UInt32
  purpose : XhciDmaPurpose
  deviceAddressStart : UInt64
  deviceAddressEnd : UInt64
  cpuStart : UInt64
  cpuEnd : UInt64
  pageCount : UInt64
  regionRoot : UInt64

def XhciDmaRegionRecord.byteLength (record : XhciDmaRegionRecord) : UInt64 :=
  record.cpuEnd - record.cpuStart

/-! ## The controller -/

structure Controller where
  /-- Off until its registers have been programmed. -/
  running : Bool
  /-- The command ring dequeue pointer. -/
  dequeue : UInt64
  /-- The consumer cycle state. -/
  cycle : Bool
  /-- All blocks that it took for its own, with their addresses, oldest first. -/
  observed : List (UInt64 × RawTrb)
  /-- How many completion events it has posted. -/
  reported : Nat

namespace Controller

/-- The blocks that it executed as commands. -/
def executed (c : Controller) : List (UInt64 × RawTrb) :=
  c.observed.filter fun x => x.2.trbType != trbTypeLink

/-- The controller looks at a block. -/
def consume (c : Controller) (trb : RawTrb) : Controller :=
  if trb.cycle ≠ c.cycle then c
  else if trb.trbType = trbTypeLink then
    { c with
      dequeue := trb.parameter &&& ~~~0xf
      cycle := if trb.control &&& linkToggleCycle ≠ 0 then !c.cycle else c.cycle
      observed := c.observed ++ [(c.dequeue, trb)] }
  else
    { c with
      dequeue := c.dequeue + 16
      observed := c.observed ++ [(c.dequeue, trb)] }

end Controller

/-! ## Memory -/

structure World where
  region : XhciDmaPurpose → Option XhciDmaRegionRecord
  page : XhciDmaPurpose → Page
  controller : Controller
  /-- Counts the accesses of the driver. -/
  clock : Nat

inductive Step where
  | fetch
  | post (i : Nat) (event : RawTrb)

namespace World

/-- What the controller reads at an address of the command ring. -/
def commandAt (w : World) (address : UInt64) : Option RawTrb :=
  (w.region .commandRing).bind fun region =>
    let offset := (address - region.deviceAddressStart).toNat
    if offset + trbBytes ≤ pageSize then
      some (.decode (slice (w.page .commandRing) offset trbBytes))
    else none

def fetch (w : World) : World :=
  match w.commandAt w.controller.dequeue with
  | some trb => { w with controller := w.controller.consume trb }
  | none => w

def isReport (event : RawTrb) : Bool := event.trbType == trbTypeCommandCompletionEvent

def post (w : World) (i : Nat) (event : RawTrb) : World :=
  if isReport event then
    if w.controller.reported < w.controller.executed.length then
      { w with
        page := update w.page .eventRing
          (patch (w.page .eventRing) (trbBytes * i) event.encode)
        controller := { w.controller with reported := w.controller.reported + 1 } }
    else w
  else
    { w with
      page := update w.page .eventRing
        (patch (w.page .eventRing) (trbBytes * i) event.encode) }

def step (w : World) (step : Step) : World :=
  if w.controller.running then
    match step with
    | .fetch => w.fetch
    | .post i event => w.post i event
  else w

/-- The driver writes a byte. -/
def poke (w : World) (purpose : XhciDmaPurpose) (offset : Nat) (byte : UInt8) : World :=
  { w with page :=
      update w.page purpose (update (w.page purpose) offset byte) }

end World

/-! ## The storage contract -/

structure Environment (E : Type) where
  steps : Nat → List Step
  refuses : Nat → Option E

section Storage

variable {E : Type} (env : Environment E)

/-- The controller's turn. -/
def World.turn (w : World) : World :=
  { (env.steps w.clock).foldl World.step w with clock := w.clock + 1 }

/-- The bytes become visible in order, and the controller is in between. -/
def World.store (purpose : XhciDmaPurpose) : Nat → List UInt8 → World → World
  | _, [], w => w.turn env
  | offset, byte :: rest, w =>
    store purpose (offset + 1) rest ((w.turn env).poke purpose offset byte)

def write (purpose : XhciDmaPurpose) (offset : Nat) (bytes : List UInt8) :
    EStateM E World Unit := fun w =>
  match env.refuses w.clock with
  | some e => .error e (w.turn env)
  | none => .ok () (w.store env purpose offset bytes)

def read (purpose : XhciDmaPurpose) (offset n : Nat) : EStateM E World (List UInt8) := fun w =>
  match env.refuses w.clock with
  | some e => .error e (w.turn env)
  | none => .ok (slice ((w.turn env).page purpose) offset n) (w.turn env)

end Storage

end Sisyphus.Xhci
