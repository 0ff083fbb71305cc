import Sisyphus.Lease.Lattice

/-!
# The Nexus gateway

`admitCommand` decides whether a command from user space is carried out.  It checks the command's
frame, charges one use to the lease the command names, stamps the command with the gateway's own
clock and asks the replay shield whether the sequence number is new.

The shield keeps the last `n` numbers it accepted, in a ring, and takes an envelope only when the
envelope's stamp is close enough to the present.  The gateway allows no distance at all, in either
direction, but the stamp it shows is one it has just made itself: it is never old, and it is ahead
exactly when the caller's tick is behind the clock.

A lease use is spent before the later checks, and the clock moves on before the shield is asked, so
both stay changed when a command is refused.  The chronicle, the stability governor and the grants
parameter take no part in the decision and are left out, and of the envelope's payload only that it
is empty is left.
-/

set_option autoImplicit false

namespace Sisyphus.Nexus

open Fallible Words Lease

/-! ## Commands on the wire -/

/-- `NEXUS_WIRE_MAGIC`. -/
def nexusWireMagic : UInt32 := 0x4e585331

/-- `NEXUS_WIRE_VERSION`. -/
def nexusWireVersion : UInt16 := 1

inductive NexusOpcode where
  | queryStats
  | queryTelemetry
  | attachTask
  | entangle
  | setCollapseThreshold
  | setPriorityMass
  | offerKairos
  deriving DecidableEq

inductive WireError where
  | badMagic
  | badVersion
  | badChecksum
  | unknownOpcode
  deriving DecidableEq

/-- `NexusOpcode::try_from`. -/
def NexusOpcode.tryFrom (value : UInt16) : Except WireError NexusOpcode :=
  if value = 1 then .ok .queryStats
  else if value = 3 then .ok .queryTelemetry
  else if value = 16 then .ok .attachTask
  else if value = 18 then .ok .entangle
  else if value = 20 then .ok .setCollapseThreshold
  else if value = 22 then .ok .setPriorityMass
  else if value = 24 then .ok .offerKairos
  else .error .unknownOpcode

structure NexusCommand where
  magic : UInt32
  version : UInt16
  opcode : UInt16
  sequence : UInt64
  capability : UInt64
  arguments : Fin 4 → UInt64
  checksum : UInt64

/-- `fold`. -/
def fold (state value : UInt64) : UInt64 :=
  let state := state ^^^ (value + 0x9e3779b97f4a7c15)
  let state := rotateLeft state 27
  let state := state * 0x94d049bb133111eb
  state ^^^ (state >>> 31)

namespace NexusCommand

def computeChecksum (c : NexusCommand) : UInt64 :=
  let header := c.magic.toUInt64 ||| (c.version.toUInt64 <<< 32) ||| (c.opcode.toUInt64 <<< 48)
  let digest := fold 0x6a09e667f3bcc909 header
  let digest := fold digest c.sequence
  let digest := fold digest c.capability
  (List.finRange 4).foldl (fun digest i => fold digest (c.arguments i)) digest

/-- `NexusCommand::new`, with the opcode as its number. -/
def new (opcode : UInt16) (sequence capability : UInt64) (arguments : Fin 4 → UInt64) :
    NexusCommand :=
  let command : NexusCommand :=
    { magic := nexusWireMagic
      version := nexusWireVersion
      opcode := opcode
      sequence := sequence
      capability := capability
      arguments := arguments
      checksum := 0 }
  { command with checksum := command.computeChecksum }

def validate (c : NexusCommand) : Except WireError NexusOpcode :=
  if c.magic ≠ nexusWireMagic then .error .badMagic
  else if c.version ≠ nexusWireVersion then .error .badVersion
  else if c.checksum ≠ c.computeChecksum then .error .badChecksum
  else NexusOpcode.tryFrom c.opcode

end NexusCommand

/-! ## The causal clock -/

structure CausalStamp where
  physicalTick : UInt64
  logicalTick : UInt32
  node : UInt16

structure CausalClock where
  node : UInt16
  physicalTick : UInt64
  logicalTick : UInt32

/-- `CausalClock::stamp`, as the clock it leaves. -/
def CausalClock.advance (c : CausalClock) (wallTick : UInt64) : CausalClock :=
  if c.physicalTick < wallTick then
    { c with physicalTick := wallTick, logicalTick := 0 }
  else
    { c with logicalTick := saturatingAdd32 c.logicalTick 1 }

/-- `CausalClock::stamp`, as the stamp it returns: the clock it leaves. -/
def CausalClock.stamp (c : CausalClock) (wallTick : UInt64) : CausalStamp :=
  ⟨(c.advance wallTick).physicalTick, (c.advance wallTick).logicalTick, c.node⟩

/-! ## The replay shield -/

/-- `CAUSAL_PAYLOAD_BYTES`. -/
def causalPayloadBytes : Nat := 32

structure CausalEnvelope where
  stamp : CausalStamp
  nonce : UInt64
  route : UInt32
  length : UInt16
  flags : UInt16

/-- `CausalEnvelope::new`, for a payload of `bytes` bytes. -/
def CausalEnvelope.new (stamp : CausalStamp) (nonce : UInt64) (route : UInt32) (flags : UInt16)
    (bytes : Nat) : CausalEnvelope :=
  ⟨stamp, nonce, route, UInt16.ofNat (min bytes causalPayloadBytes), flags⟩

structure ReplaySlot where
  active : Bool
  nonce : UInt64

inductive ReplayError where
  | duplicate
  | tooOld
  | tooFarAhead
  | invalidLength
  | noCapacity
  deriving DecidableEq

structure ReplayShield (n : Nat) where
  slots : Fin n → ReplaySlot
  cursor : Nat
  accepted : UInt64
  rejected : UInt64
  /-- `slots[cursor]` is in range. -/
  cursor_lt : 0 < n → cursor < n

namespace ReplayShield

variable {n : Nat}

def new (n : Nat) : ReplayShield n where
  slots := fun _ => ⟨false, 0⟩
  cursor := 0
  accepted := 0
  rejected := 0
  cursor_lt := id

/-- `self.rejected = self.rejected.saturating_add(1); return Err(error)`. -/
def reject (error : ReplayError) : EStateM ReplayError (ReplayShield n) Unit := do
  modify fun s => { s with rejected := saturatingAdd s.rejected 1 }
  throw error

/-- The nonce is in one of the slots. -/
def knows (s : ReplayShield n) (nonce : UInt64) : Bool :=
  (List.finRange n).any fun i => (s.slots i).active && (s.slots i).nonce == nonce

/-- Writes a nonce where the cursor stands. -/
def remember (s : ReplayShield n) (hn : 0 < n) (nonce : UInt64) : ReplayShield n where
  slots := Function.update s.slots ⟨s.cursor, s.cursor_lt hn⟩ ⟨true, nonce⟩
  cursor := (s.cursor + 1) % n
  accepted := saturatingAdd s.accepted 1
  rejected := s.rejected
  cursor_lt := fun h => Nat.mod_lt _ h

def accept (envelope : CausalEnvelope) (nowTick maximumPast maximumFuture : UInt64) :
    EStateM ReplayError (ReplayShield n) Unit :=
  if hn : 0 < n then
    if causalPayloadBytes < envelope.length.toNat then
      reject .invalidLength
    else if saturatingAdd envelope.stamp.physicalTick maximumPast < nowTick then
      reject .tooOld
    else if saturatingAdd nowTick maximumFuture < envelope.stamp.physicalTick then
      reject .tooFarAhead
    else do
      let s ← get
      if s.knows envelope.nonce then
        reject .duplicate
      else
        set (s.remember hn envelope.nonce)
  else
    reject .noCapacity

end ReplayShield

/-! ## The gateway -/

structure LeaseLattice where
  secret : UInt64
  state : LeaseState 256

/-- The gateway, and the boot cell `LEASES` that it reads. -/
structure NexusGateway (n : Nat) where
  leases : Option LeaseLattice
  clock : CausalClock
  replay : ReplayShield n

structure Admission where
  sequence : UInt64
  opcode : NexusOpcode
  stamp : CausalStamp

inductive GatewayError where
  | wire (error : WireError)
  | replay (error : ReplayError)
  | notReady
  | lease (error : LeaseError)

def rightsForOpcode : NexusOpcode → LeaseRights
  | .queryStats | .queryTelemetry => LeaseRights.observe
  | .attachTask | .setPriorityMass => LeaseRights.schedule
  | .entangle | .offerKairos => LeaseRights.resonance
  | .setCollapseThreshold => LeaseRights.control

namespace NexusGateway

variable {n : Nat}

def new (n : Nat) (node : UInt16) : NexusGateway n where
  leases := none
  clock := ⟨node, 0, 0⟩
  replay := ReplayShield.new n

abbrev Action (n : Nat) := EStateM GatewayError (NexusGateway n)

/-- What a call of the lease lattice comes to. -/
def settleLease (lattice : LeaseLattice) :
    EStateM.Result LeaseError (LeaseState 256) LeaseAdmission → Action n Unit
  | .ok _ t => modify fun g => { g with leases := some { lattice with state := t } }
  | .error e t => do
    modify fun g => { g with leases := some { lattice with state := t } }
    throw (.lease e)

/-- What a call of the replay shield comes to. -/
def settleReplay : EStateM.Result ReplayError (ReplayShield n) Unit → Action n Unit
  | .ok _ t => modify fun g => { g with replay := t }
  | .error e t => do
    modify fun g => { g with replay := t }
    throw (.replay e)

/-- `command.validate().map_err(GatewayError::Wire)`. -/
def validated (command : NexusCommand) : Except GatewayError NexusOpcode :=
  match command.validate with
  | .ok opcode => .ok opcode
  | .error e => .error (.wire e)

def admitCommand (command : NexusCommand) (nowTick : UInt64) : Action n Admission := do
  let opcode ← propagate (validated command)
  let gateway ← get
  let lattice ← orThrow gateway.leases .notReady
  settleLease lattice
    (Lease.admitLease ⟨command.capability⟩ (rightsForOpcode opcode) nowTick lattice.state)
  let stamp := gateway.clock.stamp nowTick
  modify fun g => { g with clock := g.clock.advance nowTick }
  let envelope := CausalEnvelope.new stamp command.sequence command.opcode.toUInt32 0 0
  settleReplay (ReplayShield.accept envelope nowTick 0 0 gateway.replay)
  pure ⟨command.sequence, opcode, stamp⟩

/-! ## Runs -/

/-- What happens to a gateway: the boot cell is filled, somebody calls the lease lattice, or a
command is presented. -/
inductive Event where
  | boot (secret : UInt64)
  | lease (call : Lease.Call)
  | present (command : NexusCommand) (nowTick : UInt64)

/-- The admission that a call of `admitCommand` ended in, and the gateway it left. -/
def outcome :
    EStateM.Result GatewayError (NexusGateway n) Admission → Option Admission × NexusGateway n
  | .ok a t => (some a, t)
  | .error _ t => (none, t)

/-- A boot cell is filled once. -/
def bootLeases (g : NexusGateway n) (secret : UInt64) : NexusGateway n :=
  match g.leases with
  | some _ => g
  | none => { g with leases := some ⟨secret, LeaseState.new 256⟩ }

def callLeases (g : NexusGateway n) (call : Lease.Call) : NexusGateway n :=
  match g.leases with
  | some lattice =>
    { g with leases := some { lattice with state := (lattice.state.step lattice.secret call).2 } }
  | none => g

def step (g : NexusGateway n) : Event → Option Admission × NexusGateway n
  | .boot secret => (none, g.bootLeases secret)
  | .lease call => (none, g.callLeases call)
  | .present command nowTick => outcome (admitCommand command nowTick g)

end NexusGateway

end Sisyphus.Nexus
