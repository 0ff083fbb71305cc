import Sisyphus.Foundation.Words
import Sisyphus.Ring.Separation

/-!
# The transition frontier of a CPU

A model of the rest of `ring_authority.rs`.  Each CPU has a frontier between the scheduler and the
return instruction.  `prepare` takes an execution reference on the target domain and hands out a
lease, `commit` turns the lease into a running domain, `abort` gives the reference back, and so does
`enter_kernel` when the domain traps.

A frontier's method works on the frontier and on the registry, which is shared by all CPUs.  The
system is the registry with a frontier for each CPU, and its runs are interleavings of whole method
calls, since a method has both of them borrowed.
-/

set_option autoImplicit false

namespace Sisyphus.Ring

open Fallible Slots Words

inductive ActiveExecution where
  | kernel
  | domain (handle : Handle)
  deriving DecidableEq

structure PendingTransition where
  sequence : UInt64
  target : Handle
  targetRing : PrivilegeRing
  addressSpaceRoot : UInt64
  gate : TransitionGate
  deriving DecidableEq

structure TransitionLease where
  cpuId : UInt32
  cpuGeneration : UInt64
  pending : PendingTransition

structure CommittedTransition where
  target : Handle
  targetRing : PrivilegeRing
  addressSpaceRoot : UInt64
  gate : TransitionGate
  sequence : UInt64

structure KernelInvocation where
  cpuId : UInt32
  cpuGeneration : UInt64
  caller : Handle
  entrySequence : UInt64

structure TransitionFrontier where
  cpuId : UInt32
  cpuGeneration : UInt64
  kernelAddressSpaceRoot : UInt64
  sequence : UInt64
  active : ActiveExecution
  pending : Option PendingTransition
  invocation : Option (Handle × UInt64)

namespace TransitionFrontier

def new (cpuId : UInt32) (cpuGeneration kernelAddressSpaceRoot : UInt64) :
    Except AuthorityError TransitionFrontier :=
  if cpuGeneration = 0 then .error .invalidCpuGeneration
  else if !validPageTableRoot kernelAddressSpaceRoot then .error .invalidAddressSpaceRoot
  else .ok {
    cpuId, cpuGeneration, kernelAddressSpaceRoot, sequence := 0, active := .kernel
    pending := none, invocation := none }

/-- The frontier and the registry that a method has borrowed. -/
abbrev Method (α : Type) := EStateM AuthorityError (TransitionFrontier × DomainRegistry) α

/-- A call of the registry, with `?`. -/
def onRegistry {α : Type} (x : EStateM AuthorityError DomainRegistry α) : Method α := do
  propagate (← within Prod.snd (fun registry s => (s.1, registry)) x)

def prepare (target : Handle) (gate : TransitionGate) : Method TransitionLease := do
  let s ← get
  refuse (s.2.kernelAddressSpaceRoot != s.1.kernelAddressSpaceRoot) .kernelAddressSpaceMismatch
  refuse (s.1.active != .kernel) .kernelNotActive
  refuse s.1.pending.isSome .transitionAlreadyPending
  let descriptor ← propagate (s.2.descriptor target)
  refuse (!validDispatchGate .kernel descriptor.role.ring gate) .invalidTransitionGate
  refuse (descriptor.addressSpaceRoot == s.1.kernelAddressSpaceRoot) .sharedAddressSpace
  let sequence ← orThrow (checkedSucc s.1.sequence) .generationExhausted
  onRegistry (DomainRegistry.retainExecution target)
  let pending : PendingTransition :=
    { sequence, target, targetRing := descriptor.role.ring,
      addressSpaceRoot := descriptor.addressSpaceRoot, gate }
  modify fun s => ({ s.1 with sequence, pending := some pending, invocation := none }, s.2)
  return { cpuId := s.1.cpuId, cpuGeneration := s.1.cpuGeneration, pending }

def commit (lease : TransitionLease) (observedKernelAddressSpaceRoot : UInt64) :
    Method CommittedTransition := do
  let s ← get
  refuse (lease.cpuId != s.1.cpuId || lease.cpuGeneration != s.1.cpuGeneration) .wrongCpu
  refuse (s.1.pending != some lease.pending) .staleTransition
  let descriptor ← propagate (s.2.descriptor lease.pending.target)
  refuse (descriptor.addressSpaceRoot != lease.pending.addressSpaceRoot ||
    descriptor.role.ring != lease.pending.targetRing) .staleDomain
  refuse (observedKernelAddressSpaceRoot != s.1.kernelAddressSpaceRoot ||
    s.2.kernelAddressSpaceRoot != s.1.kernelAddressSpaceRoot) .kernelAddressSpaceMismatch
  refuse (!validDispatchGate .kernel lease.pending.targetRing lease.pending.gate)
    .invalidTransitionGate
  modify fun s => ({ s.1 with pending := none, active := .domain lease.pending.target }, s.2)
  return {
    target := lease.pending.target
    targetRing := lease.pending.targetRing
    addressSpaceRoot := lease.pending.addressSpaceRoot
    gate := lease.pending.gate
    sequence := lease.pending.sequence }

def abort (lease : TransitionLease) : Method Unit := do
  let s ← get
  refuse (lease.cpuId != s.1.cpuId || lease.cpuGeneration != s.1.cpuGeneration) .wrongCpu
  refuse (s.1.pending != some lease.pending) .staleTransition
  onRegistry (DomainRegistry.releaseExecution lease.pending.target)
  modify fun s => ({ s.1 with pending := none }, s.2)

def enterKernel (caller : Handle)
    (sourceAddressSpaceRoot installedKernelAddressSpaceRoot : UInt64) :
    Method KernelInvocation := do
  let s ← get
  refuse s.1.pending.isSome .transitionAlreadyPending
  refuse (s.1.active != .domain caller) .unexpectedCaller
  let descriptor ← propagate (s.2.descriptor caller)
  refuse (descriptor.addressSpaceRoot != sourceAddressSpaceRoot) .sourceAddressSpaceMismatch
  refuse (installedKernelAddressSpaceRoot != s.1.kernelAddressSpaceRoot ||
    s.2.kernelAddressSpaceRoot != s.1.kernelAddressSpaceRoot) .kernelAddressSpaceMismatch
  let entrySequence ← orThrow (checkedSucc s.1.sequence) .generationExhausted
  onRegistry (DomainRegistry.releaseExecution caller)
  modify fun s => ({ s.1 with
    sequence := entrySequence
    active := .kernel
    invocation := some (caller, entrySequence) }, s.2)
  return { cpuId := s.1.cpuId, cpuGeneration := s.1.cpuGeneration, caller, entrySequence }

end TransitionFrontier

/-! ## All CPUs -/

/-- The registry, and a frontier for each of `n` CPUs. -/
structure System (n : Nat) where
  registry : DomainRegistry
  frontiers : Fin n → TransitionFrontier

namespace System

variable {n : Nat}

inductive Action (n : Nat) where
  | register (descriptor : DomainDescriptor)
  | revoke (handle : Handle)
  | prepare (cpu : Fin n) (target : Handle) (gate : TransitionGate)
  | commit (cpu : Fin n) (lease : TransitionLease) (observedKernelAddressSpaceRoot : UInt64)
  | abort (cpu : Fin n) (lease : TransitionLease)
  | enterKernel (cpu : Fin n) (caller : Handle)
    (sourceAddressSpaceRoot installedKernelAddressSpaceRoot : UInt64)

inductive Answer where
  | registered (handle : Handle)
  | lease (lease : TransitionLease)
  | committed (transition : CommittedTransition)
  | invocation (invocation : KernelInvocation)
  | done

/-- A call of the registry. -/
def onRegistry {α : Type} (s : System n) (x : EStateM AuthorityError DomainRegistry α)
    (answer : α → Answer) : Except AuthorityError Answer × System n :=
  match x s.registry with
  | .ok a registry => (.ok (answer a), { s with registry })
  | .error e registry => (.error e, { s with registry })

/-- A method of a CPU's frontier. -/
def onCpu {α : Type} (s : System n) (cpu : Fin n) (x : TransitionFrontier.Method α)
    (answer : α → Answer) : Except AuthorityError Answer × System n :=
  match x (s.frontiers cpu, s.registry) with
  | .ok a (frontier, registry) =>
    (.ok (answer a), { registry, frontiers := Function.update s.frontiers cpu frontier })
  | .error e (frontier, registry) =>
    (.error e, { registry, frontiers := Function.update s.frontiers cpu frontier })

def perform (s : System n) : Action n → Except AuthorityError Answer × System n
  | .register descriptor => s.onRegistry (DomainRegistry.register descriptor) .registered
  | .revoke handle => s.onRegistry (DomainRegistry.revoke handle) fun _ => .done
  | .prepare cpu target gate => s.onCpu cpu (TransitionFrontier.prepare target gate) .lease
  | .commit cpu lease observedKernelAddressSpaceRoot =>
    s.onCpu cpu (TransitionFrontier.commit lease observedKernelAddressSpaceRoot) .committed
  | .abort cpu lease => s.onCpu cpu (TransitionFrontier.abort lease) fun _ => .done
  | .enterKernel cpu caller sourceAddressSpaceRoot installedKernelAddressSpaceRoot =>
    s.onCpu cpu (TransitionFrontier.enterKernel caller sourceAddressSpaceRoot
      installedKernelAddressSpaceRoot) .invocation

end System

end Sisyphus.Ring
