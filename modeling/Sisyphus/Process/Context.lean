import Mathlib.Data.UInt
import Mathlib.Tactic

/-!
# Architecture-visible state of a Ring 3 process

`process/context.rs` describes what the kernel needs in order to resume a user process: the
general-purpose registers at the user-to-kernel boundary (`SavedUserContext`), the address space
and kernel stack that go with them (`DispatchContext`), and the same two together with the
process identity and the scheduler epoch they were issued under (`AuthorizedUserReturn`).

Everything here is a fixed-width value, so the registers are `UInt64`s and the validity tests are
the bit tests of the source.
-/

set_option autoImplicit false

namespace Sisyphus

def userAddressMinimum : UInt64 := 0x1000
def userAddressLimit : UInt64 := 0x0000800000000000
def kernelAddressMinimum : UInt64 := 0xffff800000000000

/-- The source's `1 << n` on a 64-bit word. -/
def bit64 (n : UInt64) : UInt64 := 1 <<< n

def initialUserFlags : UInt64 := bit64 1 ||| bit64 9

def pageMask : UInt64 := 0xfff
def physicalAddressMask : UInt64 := 0x000ffffffffff000

def userFlagsAllowed : UInt64 :=
  bit64 0 ||| bit64 1 ||| bit64 2 ||| bit64 4 ||| bit64 6 ||| bit64 7 ||| bit64 8 ||| bit64 9 |||
    bit64 10 ||| bit64 11 ||| bit64 16 ||| bit64 18 ||| bit64 21

inductive ContextError where
  | invalidInstructionPointer
  | invalidStackPointer
  | invalidFlags
  | invalidAddressSpaceRoot
  | invalidKernelStackPointer
  | invalidDispatchAuthority
  deriving DecidableEq

def validUserAddress (address : UInt64) : Bool :=
  address ≥ userAddressMinimum && address < userAddressLimit

def validPageTableRoot (root : UInt64) : Bool :=
  root != 0 && root &&& pageMask == 0 && root &&& ~~~physicalAddressMask == 0

def validKernelStackPointer (pointer : UInt64) : Bool :=
  pointer ≥ kernelAddressMinimum && pointer &&& 0xf == 0

/-! ## Saved registers -/

/-- Complete general-purpose state at a user-to-kernel boundary. -/
structure SavedUserContext where
  r15 : UInt64
  r14 : UInt64
  r13 : UInt64
  r12 : UInt64
  r11 : UInt64
  r10 : UInt64
  r9 : UInt64
  r8 : UInt64
  rbp : UInt64
  rdi : UInt64
  rsi : UInt64
  rdx : UInt64
  rcx : UInt64
  rbx : UInt64
  rax : UInt64
  instructionPointer : UInt64
  flags : UInt64
  stackPointer : UInt64
  deriving DecidableEq

namespace SavedUserContext

def empty : SavedUserContext :=
  ⟨0, 0, 0, 0, 0, 0, 0, 0, 0, 0, 0, 0, 0, 0, 0, 0, 0, 0⟩

/-- The first context dispatched for a newly installed process. -/
def initial (instructionPointer stackPointer : UInt64) : SavedUserContext :=
  { empty with
    r11 := initialUserFlags
    rcx := instructionPointer
    instructionPointer
    flags := initialUserFlags
    stackPointer }

def validate (c : SavedUserContext) : Except ContextError Unit :=
  if !validUserAddress c.instructionPointer then .error .invalidInstructionPointer
  else if !validUserAddress c.stackPointer then .error .invalidStackPointer
  else if c.flags &&& bit64 1 == 0 || c.flags &&& ~~~userFlagsAllowed != 0 then
    .error .invalidFlags
  else .ok ()

/-- Sets the value observed in RAX when this context resumes after a syscall. -/
def setSyscallResult (c : SavedUserContext) (result : UInt64) : SavedUserContext :=
  { c with rax := result }

theorem validate_setSyscallResult (c : SavedUserContext) (result : UInt64) :
    (c.setSyscallResult result).validate = c.validate := rfl

theorem validate_initial {ip sp : UInt64} (hip : validUserAddress ip = true)
    (hsp : validUserAddress sp = true) : (initial ip sp).validate = .ok () := by
  have hflags : (initialUserFlags &&& bit64 1 == 0 ||
      initialUserFlags &&& ~~~userFlagsAllowed != 0) = false := by decide
  simp only [validate, initial, hip, hsp, hflags, Bool.not_true, Bool.false_eq_true, if_false]

end SavedUserContext

/-! ## Dispatch state and return authority -/

/-- Trusted dispatch state consumed by the architecture switch path. -/
structure DispatchContext where
  user : SavedUserContext
  addressSpaceRoot : UInt64
  kernelStackPointer : UInt64
  deriving DecidableEq

def DispatchContext.validate (d : DispatchContext) : Except ContextError Unit :=
  match d.user.validate with
  | .error e => .error e
  | .ok () =>
    if !validPageTableRoot d.addressSpaceRoot then .error .invalidAddressSpaceRoot
    else if !validKernelStackPointer d.kernelStackPointer then .error .invalidKernelStackPointer
    else .ok ()

theorem DispatchContext.validate_eq_ok {d : DispatchContext} (hu : d.user.validate = .ok ())
    (hr : validPageTableRoot d.addressSpaceRoot = true)
    (hk : validKernelStackPointer d.kernelStackPointer = true) : d.validate = .ok () := by
  simp [DispatchContext.validate, hu, hr, hk]

/-- A lifecycle-issued authority to cross the final kernel-to-user boundary. -/
structure AuthorizedUserReturn where
  dispatch : DispatchContext
  pid : UInt32
  generation : UInt32
  schedulerEpoch : UInt64
  deriving DecidableEq

def AuthorizedUserReturn.validate (a : AuthorizedUserReturn) : Except ContextError Unit :=
  if a.pid == 0 || a.generation == 0 || a.schedulerEpoch == 0 then .error .invalidDispatchAuthority
  else a.dispatch.validate

theorem AuthorizedUserReturn.validate_eq_ok {a : AuthorizedUserReturn} (hp : a.pid ≠ 0)
    (hg : a.generation ≠ 0) (he : a.schedulerEpoch ≠ 0) (hd : a.dispatch.validate = .ok ()) :
    a.validate = .ok () := by
  simp [AuthorizedUserReturn.validate, hp, hg, he, hd]

end Sisyphus
