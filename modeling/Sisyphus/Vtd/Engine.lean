import Sisyphus.Foundation.Ensures

/-!
# The remapping engine

A model of the state machine in `hw/vtd.rs` that drives one VT-d remapping unit through its
registers: `probe` looks at a unit, `enable` installs a root table and turns translation on,
`disable` turns it off again, and `commitTableUpdate` makes the hardware forget what it cached
after page tables were changed.

The registers are a parameter.  A register access may fail, may have any effect on the registers,
and may answer anything, so nothing is assumed about the hardware; every loop that polls a
register gives up after `poll_limit` turns.

What the rest of the driver relies on is proved at the end.  An invalidation that fails takes the
engine out of `enabled`, and nothing brings it back: a `poisoned` engine refuses every call
(`Engine.ensures_commitTableUpdate`, `Engine.ensures_disable`).
-/

set_option autoImplicit false

namespace Sisyphus.Vtd

open Fallible

/-! ## Registers -/

def pageSize : UInt64 := 4096
def physicalPageMask : UInt64 := 0x000ffffffffff000
def physicalAddressMask : UInt64 := 0x000fffffffffffff

def registerWindowBytes : Nat := 0x4000
def ver : Nat := 0x00
def cap : Nat := 0x08
def ecap : Nat := 0x10
def gcmd : Nat := 0x18
def gsts : Nat := 0x1c
def rtaddr : Nat := 0x20
def ccmd : Nat := 0x28
def fsts : Nat := 0x34

def gcmdTe : UInt32 := 0x80000000
def gcmdSrtp : UInt32 := 0x40000000
def gcmdWbf : UInt32 := 0x8000000

def gstsTes : UInt32 := 0x80000000
def gstsRtps : UInt32 := 0x40000000
def gstsAfls : UInt32 := 0x10000000
def gstsWbfs : UInt32 := 0x8000000
def gstsQies : UInt32 := 0x4000000
def gstsIres : UInt32 := 0x2000000
def gstsCfis : UInt32 := 0x800000
def gstsForeignOwnership : UInt32 :=
  gstsTes ||| gstsAfls ||| gstsWbfs ||| gstsQies ||| gstsIres ||| gstsCfis
def gstsPersistentCommandState : UInt32 :=
  gstsTes ||| gstsAfls ||| gstsQies ||| gstsIres ||| gstsCfis

def ccmdIcc : UInt64 := 0x8000000000000000
def ccmdCirgGlobal : UInt64 := 0x2000000000000000
def ccmdCaigMask : UInt64 := 0x1800000000000000
def ccmdCaigGlobal : UInt64 := 0x800000000000000

def iotlbIvt : UInt64 := 0x8000000000000000
def iotlbIirgGlobal : UInt64 := 0x1000000000000000
def iotlbIaigMask : UInt64 := 0x600000000000000
def iotlbIaigGlobal : UInt64 := 0x200000000000000

def capRwbf : UInt64 := 0x10
def capSagawMask : UInt64 := 0xf00
def capMgawMask : UInt64 := 0x3f0000
def ecapIroMask : UInt64 := 0x3ff00
def fstsIte : UInt32 := 0x40

inductive VtdRegisterError where
  | access
  | unstable
  deriving DecidableEq

class VtdRegisterBackend (R : Type) where
  readU32 : Nat → EStateM VtdRegisterError R UInt32
  writeU32 : Nat → UInt32 → EStateM VtdRegisterError R Unit
  readU64 : Nat → EStateM VtdRegisterError R UInt64
  writeU64 : Nat → UInt64 → EStateM VtdRegisterError R Unit
  relax : R → R

open VtdRegisterBackend

/-! ## The engine -/

structure VtdVersion where
  major : UInt8
  minor : UInt8

structure VtdCapabilities where
  raw : UInt64
  extendedRaw : UInt64
  supportedAdjustedGuestWidths : UInt8
  maximumGuestAddressWidth : UInt8
  requiresWriteBufferFlush : Bool
  iotlbRegisterOffset : Nat

inductive VtdEngineState where
  | disabled
  | enabled
  | foreignOwned
  | poisoned
  deriving DecidableEq

inductive VtdOperation where
  | writeBufferFlush
  | rootTablePointer
  | contextInvalidation
  | iotlbInvalidation
  | enableTranslation
  | disableTranslation
  | rollback
  deriving DecidableEq

inductive VtdEngineFault where
  | invalidUnit
  | invalidRootTable
  | invalidPollLimit
  | unsupportedVersion
  | unsupportedCapabilities
  | foreignOwnership
  | invalidState
  | register (error : VtdRegisterError)
  | pendingCommand (operation : VtdOperation)
  | timeout (operation : VtdOperation)
  | completionRejected (operation : VtdOperation)
  | hardwareInvalidationTimeout
  | rollbackFailed (operation : VtdOperation)

def VtdEngineFault.operation : VtdEngineFault → VtdOperation
  | .pendingCommand operation => operation
  | .timeout operation => operation
  | .completionRejected operation => operation
  | .rollbackFailed operation => operation
  | _ => .rollback

structure VtdEnableReceipt where
  segment : UInt16
  registerBase : UInt64
  rootTableAddress : UInt64
  version : VtdVersion
  capabilities : VtdCapabilities

/-- The state machine `VtdRemappingEngine`. -/
structure Engine (R : Type) where
  segment : UInt16
  registerBase : UInt64
  registers : R
  version : VtdVersion
  capabilities : VtdCapabilities
  state : VtdEngineState
  ownedRoot : Option UInt64

inductive TableError where
  | invalidPageAddress
  | invalidAddressWidth
  deriving DecidableEq

def validatePage (physicalAddress : UInt64) : Except TableError Unit :=
  if physicalAddress == 0 || physicalAddress % pageSize != 0 ||
      physicalAddress &&& ~~~physicalPageMask != 0 then .error .invalidPageAddress
  else .ok ()

def validateRegisterBase (registerBase : UInt64) : Except VtdEngineFault Unit :=
  if registerBase == 0 || registerBase % pageSize != 0 ||
      registerBase &&& ~~~physicalPageMask != 0 ||
      decide (registerBase.toNat + (registerWindowBytes - 1) ≥ 2 ^ 64) ||
      (registerBase + (registerWindowBytes - 1).toUInt64) &&& ~~~physicalAddressMask != 0 then
    .error .invalidUnit
  else .ok ()

/-! ## Talking to the registers -/

section Registers

variable {R α : Type}

/-- A register access, its failure passed on with `?`. -/
def register (x : EStateM VtdRegisterError R α) : EStateM VtdEngineFault R α := fun r =>
  match x r with
  | .ok a r => .ok a r
  | .error e r => .error (.register e) r

variable [VtdRegisterBackend R]

/-- The loop of `wait_u32` and `wait_u64`: polls until `done`, so many times. -/
def pollUntil (read : EStateM VtdRegisterError R α) (done : α → Bool) (operation : VtdOperation) :
    Nat → EStateM VtdEngineFault R α
  | 0 => throw (.timeout operation)
  | turns + 1 => do
    let value ← register read
    if done value then return value
    modify relax
    pollUntil read done operation turns

def waitU32 (offset : Nat) (mask : UInt32) (set : Bool) (pollLimit : UInt32)
    (operation : VtdOperation) : EStateM VtdEngineFault R UInt32 :=
  pollUntil (readU32 offset) (fun value => (value &&& mask != 0) == set) operation pollLimit.toNat

def waitU64 (offset : Nat) (mask : UInt64) (set : Bool) (pollLimit : UInt32)
    (operation : VtdOperation) : EStateM VtdEngineFault R UInt64 :=
  pollUntil (readU64 offset) (fun value => (value &&& mask != 0) == set) operation pollLimit.toNat

def checkInvalidationStatus : EStateM VtdEngineFault R Unit := do
  refuse ((← register (readU32 fsts)) &&& fstsIte != 0) .hardwareInvalidationTimeout

/-- Writes an invalidation command and waits for the hardware to acknowledge it: the shared body
of `invalidate_context` and `invalidate_iotlb`. -/
def invalidate (offset : Nat) (busy command mask granted : UInt64) (pollLimit : UInt32)
    (operation : VtdOperation) : EStateM VtdEngineFault R Unit := do
  refuse ((← register (readU64 offset)) &&& busy != 0) (.pendingCommand operation)
  register (writeU64 offset (busy ||| command))
  let completed ← waitU64 offset busy false pollLimit operation
  refuse (completed &&& mask != granted) (.completionRejected operation)
  checkInvalidationStatus

def invalidateContext (pollLimit : UInt32) : EStateM VtdEngineFault R Unit :=
  invalidate ccmd ccmdIcc ccmdCirgGlobal ccmdCaigMask ccmdCaigGlobal pollLimit .contextInvalidation

def invalidateIotlb (capabilities : VtdCapabilities) (pollLimit : UInt32) :
    EStateM VtdEngineFault R Unit :=
  invalidate (capabilities.iotlbRegisterOffset + 8) iotlbIvt iotlbIirgGlobal iotlbIaigMask
    iotlbIaigGlobal pollLimit .iotlbInvalidation

/-- Composes a global command from the persistent part of the status register. -/
def issueGlobalCommand (translationEnabled : Option Bool) (oneShot : UInt32) :
    EStateM VtdEngineFault R Unit := do
  let command := (← register (readU32 gsts)) &&& gstsPersistentCommandState
  let command :=
    match translationEnabled with
    | some true => command ||| gcmdTe
    | some false => command &&& ~~~gcmdTe
    | none => command
  register (writeU32 gcmd (command ||| oneShot))

def flushWriteBuffer (capabilities : VtdCapabilities) (pollLimit : UInt32) :
    EStateM VtdEngineFault R Unit := do
  if !capabilities.requiresWriteBufferFlush then return
  issueGlobalCommand none gcmdWbf
  discard (waitU32 gsts gstsWbfs false pollLimit .writeBufferFlush)

def installRootPointer (rootTableAddress : UInt64) (pollLimit : UInt32) :
    EStateM VtdEngineFault R Unit := do
  register (writeU64 rtaddr rootTableAddress)
  refuse ((← register (readU64 rtaddr)) != rootTableAddress) (.completionRejected .rootTablePointer)
  issueGlobalCommand none gcmdSrtp
  discard (waitU32 gsts gstsRtps true pollLimit .rootTablePointer)

/-- The three steps after which the hardware holds nothing stale. -/
def flushAndInvalidate (capabilities : VtdCapabilities) (pollLimit : UInt32) :
    EStateM VtdEngineFault R Unit := do
  flushWriteBuffer capabilities pollLimit
  invalidateContext pollLimit
  invalidateIotlb capabilities pollLimit

def configureRoot (capabilities : VtdCapabilities) (rootTableAddress : UInt64)
    (pollLimit : UInt32) : EStateM VtdEngineFault R Unit := do
  installRootPointer rootTableAddress pollLimit
  flushAndInvalidate capabilities pollLimit
  issueGlobalCommand (some true) 0
  discard (waitU32 gsts gstsTes true pollLimit .enableTranslation)

def rollbackEnable (capabilities : VtdCapabilities) (previousRoot : UInt64) (pollLimit : UInt32) :
    EStateM VtdEngineFault R Unit := do
  issueGlobalCommand (some false) 0
  discard (waitU32 gsts gstsTes false pollLimit .rollback)
  installRootPointer previousRoot pollLimit
  flushAndInvalidate capabilities pollLimit

def disableAndPurge (capabilities : VtdCapabilities) (pollLimit : UInt32) :
    EStateM VtdEngineFault R Unit := do
  issueGlobalCommand (some false) 0
  discard (waitU32 gsts gstsTes false pollLimit .disableTranslation)
  invalidateContext pollLimit
  invalidateIotlb capabilities pollLimit

def rollbackDisable (capabilities : VtdCapabilities) (ownedRoot : UInt64) (pollLimit : UInt32) :
    EStateM VtdEngineFault R Unit := do
  if (← register (readU32 gsts)) &&& gstsTes != 0 then return
  configureRoot capabilities ownedRoot pollLimit

/-- What `probe` finds out about a unit. -/
def inspect (registerBase : UInt64) :
    EStateM VtdEngineFault R (VtdVersion × VtdCapabilities × VtdEngineState) := do
  propagate (validateRegisterBase registerBase)
  let versionRaw ← register (readU32 ver)
  let version : VtdVersion :=
    ⟨((versionRaw >>> 4) &&& 0x0f).toUInt8, (versionRaw &&& 0x0f).toUInt8⟩
  refuse (version.major == 0) .unsupportedVersion
  let capabilityRaw ← register (readU64 cap)
  let extendedRaw ← register (readU64 ecap)
  let widths := ((capabilityRaw &&& capSagawMask) >>> 8).toUInt8
  let maximumWidth := (((capabilityRaw &&& capMgawMask) >>> 16) + 1).toUInt8
  let iotlbOffset := ((extendedRaw &&& ecapIroMask) >>> 8).toNat * 16
  refuse (widths == 0 || decide (maximumWidth.toNat < 30) || decide (maximumWidth.toNat > 64) ||
    iotlbOffset == 0 || decide (iotlbOffset + 16 > registerWindowBytes)) .unsupportedCapabilities
  let status ← register (readU32 gsts)
  let contextCommandPending := (← register (readU64 ccmd)) &&& ccmdIcc != 0
  let iotlbCommandPending := (← register (readU64 (iotlbOffset + 8))) &&& iotlbIvt != 0
  let state := if status &&& gstsForeignOwnership != 0 || contextCommandPending ||
    iotlbCommandPending then VtdEngineState.foreignOwned else .disabled
  return (version, ⟨capabilityRaw, extendedRaw, widths, maximumWidth,
    capabilityRaw &&& capRwbf != 0, iotlbOffset⟩, state)

end Registers

/-! ## The calls -/

namespace Engine

variable {R : Type} [VtdRegisterBackend R]

/-- `probe`: on failure the registers go back to the caller. -/
def probe (segment : UInt16) (registerBase : UInt64) (registers : R) :
    Except (VtdEngineFault × R) (Engine R) :=
  match inspect registerBase registers with
  | .error fault registers => .error (fault, registers)
  | .ok (version, capabilities, state) registers =>
    .ok { segment, registerBase, registers, version, capabilities, state, ownedRoot := none }

/-- Runs register accesses and hands the outcome to a `match`. -/
def onRegisters {ε α : Type} (x : EStateM VtdEngineFault R α) :
    EStateM ε (Engine R) (Except VtdEngineFault α) :=
  within Engine.registers (fun registers engine => { engine with registers }) x

/-- Runs register accesses and passes a failure on with `?`. -/
def onRegisters? {α : Type} (x : EStateM VtdEngineFault R α) :
    EStateM VtdEngineFault (Engine R) α := do
  match ← onRegisters x with
  | .ok a => pure a
  | .error fault => throw fault

def setState {ε : Type} (state : VtdEngineState) : EStateM ε (Engine R) Unit :=
  modify fun engine => { engine with state }

/-- Reads a register that shows whether someone else has taken the unit. -/
def refuseForeign {α : Type} (read : EStateM VtdRegisterError R α) (foreign : α → Bool) :
    EStateM VtdEngineFault (Engine R) Unit := do
  if foreign (← onRegisters? (register read)) then
    setState .foreignOwned
    throw .foreignOwnership

def enable (rootTableAddress : UInt64) (pollLimit : UInt32) :
    EStateM VtdEngineFault (Engine R) VtdEnableReceipt := do
  refuse (pollLimit == 0) .invalidPollLimit
  propagate ((validatePage rootTableAddress).mapError fun _ => .invalidRootTable)
  let engine ← get
  refuse (engine.state == .foreignOwned) .foreignOwnership
  refuse (engine.state != .disabled) .invalidState
  refuseForeign (readU32 gsts) fun status => status &&& gstsForeignOwnership != 0
  refuseForeign (readU64 ccmd) fun command => command &&& ccmdIcc != 0
  refuseForeign (readU64 (engine.capabilities.iotlbRegisterOffset + 8)) fun command =>
    command &&& iotlbIvt != 0
  refuse ((← onRegisters? (register (readU32 fsts))) &&& fstsIte != 0) .hardwareInvalidationTimeout
  let previousRoot ← onRegisters? (register (readU64 rtaddr))
  match ← onRegisters (configureRoot engine.capabilities rootTableAddress pollLimit) with
  | .error error =>
    match ← onRegisters (rollbackEnable engine.capabilities previousRoot pollLimit) with
    | .error _ =>
      setState .poisoned
      throw (.rollbackFailed error.operation)
    | .ok () =>
      setState .disabled
      throw error
  | .ok () =>
    setState .enabled
    modify fun engine => { engine with ownedRoot := some rootTableAddress }
    return ⟨engine.segment, engine.registerBase, rootTableAddress, engine.version,
      engine.capabilities⟩

/-- The check that `disable` and `commit_table_update` begin with. -/
def ensureEnabled (pollLimit : UInt32) : EStateM VtdEngineFault (Engine R) UInt64 := do
  refuse (pollLimit == 0) .invalidPollLimit
  let engine ← get
  match engine.state, engine.ownedRoot with
  | .enabled, some root => return root
  | .foreignOwned, _ => throw .foreignOwnership
  | _, _ => throw .invalidState

def disable (pollLimit : UInt32) : EStateM VtdEngineFault (Engine R) Unit := do
  let ownedRoot ← ensureEnabled pollLimit
  let capabilities := (← get).capabilities
  match ← onRegisters (disableAndPurge capabilities pollLimit) with
  | .error error =>
    match ← onRegisters (rollbackDisable capabilities ownedRoot pollLimit) with
    | .error _ =>
      setState .poisoned
      throw (.rollbackFailed error.operation)
    | .ok () =>
      setState .enabled
      throw error
  | .ok () =>
    setState .disabled
    modify fun engine => { engine with ownedRoot := none }

/-- `commit_table_update`: a failed flush or invalidation poisons the engine, because the hardware
may have seen a part of the update. -/
def commitTableUpdate (pollLimit : UInt32) : EStateM VtdEngineFault (Engine R) Unit := do
  let _ ← ensureEnabled pollLimit
  let capabilities := (← get).capabilities
  match ← onRegisters (flushAndInvalidate capabilities pollLimit) with
  | .error error =>
    setState .poisoned
    throw error
  | .ok () => pure ()

/-! ## What a call leaves behind -/

variable {pollLimit : UInt32} {engine : Engine R}

omit [VtdRegisterBackend R] in
@[simp] theorem ensures_onRegisters {ε α : Type} {x : EStateM VtdEngineFault R α}
    {Q : Except VtdEngineFault α → Engine R → Prop} {E : ε → Engine R → Prop} :
    Ensures (onRegisters x) engine Q E ↔
      Ensures x engine.registers (fun a r => Q (.ok a) { engine with registers := r })
        (fun e r => Q (.error e) { engine with registers := r }) := ensures_within

omit [VtdRegisterBackend R] in
/-- Only an enabled engine gets past the first check. -/
theorem ensures_ensureEnabled {Q : UInt64 → Engine R → Prop} {E : VtdEngineFault → Engine R → Prop}
    (hok : ∀ root, engine.state = .enabled → pollLimit ≠ 0 → engine.ownedRoot = some root →
      Q root engine)
    (hrefused : ∀ fault, engine.state ≠ .enabled ∨ pollLimit = 0 ∨ engine.ownedRoot = none →
      E fault engine) : Ensures (ensureEnabled pollLimit) engine Q E := by
  simp only [ensureEnabled, ensures_rules, beq_iff_eq, beq_eq_false_iff_ne]
  refine ⟨fun h => hrefused _ (.inr (.inl h)), fun hpoll => ?_⟩
  split
  · next root hstate hroot => exact hok root hstate hpoll hroot
  · next hstate => exact hrefused _ (.inl (by simp [hstate]))
  · next hnot =>
    refine hrefused _ ?_
    by_cases hstate : engine.state = .enabled
    · cases hroot : engine.ownedRoot with
      | none => exact .inr (.inr rfl)
      | some root => exact absurd hroot (hnot root hstate)
    · exact .inl hstate

/-- An engine that was enabled has a root. -/
theorem ensures_enable {rootTableAddress : UInt64} :
    Ensures (enable rootTableAddress pollLimit) engine (fun _ engine' => engine'.ownedRoot.isSome)
      fun _ _ => True := by
  have hstep : ∀ {α β : Type} {x : EStateM VtdEngineFault (Engine R) α}
      {f : α → EStateM VtdEngineFault (Engine R) β} {Q : β → Engine R → Prop} {engine : Engine R},
      (∀ a t, Ensures (f a) t Q fun _ _ => True) → Ensures (x >>= f) engine Q fun _ _ => True := by
    intro α β x f Q engine h
    rw [ensures_bind, Ensures]
    split
    · exact h _ _
    · trivial
  iterate 11 refine hstep fun _ _ => ?_
  simp only [ensures_rules, ensures_onRegisters, setState, Option.isSome_some]
  rw [Ensures]
  split
  · trivial
  · rw [Ensures]
    split <;> trivial

/-- **A failed update takes the engine out of service.**  A call that succeeds leaves the engine
enabled, and one that fails leaves it in a state in which it will fail again. -/
theorem ensures_commitTableUpdate : Ensures (commitTableUpdate pollLimit) engine
      (fun _ engine' => engine.state = .enabled ∧ engine'.state = .enabled ∧
        engine'.ownedRoot = engine.ownedRoot)
      (fun _ engine' => engine'.ownedRoot = engine.ownedRoot ∧
        (engine'.state = .poisoned ∨ engine' = engine ∧
          (engine.state ≠ .enabled ∨ pollLimit = 0 ∨ engine.ownedRoot = none))) := by
  rw [commitTableUpdate, ensures_bind]
  refine ensures_ensureEnabled (fun root hstate hpoll hroot => ?_)
    fun fault hrefused => ⟨rfl, .inr ⟨rfl, hrefused⟩⟩
  simp only [ensures_rules, ensures_onRegisters]
  rw [Ensures]
  split
  · exact ⟨hstate, hstate, trivial⟩
  · exact ⟨rfl, .inl rfl⟩

/-- `disable` does not bring an engine into service either. -/
theorem ensures_disable : Ensures (disable pollLimit) engine
      (fun _ engine' => engine.state = .enabled ∧ engine'.state = .disabled ∧
        engine'.ownedRoot = none)
      (fun _ engine' => engine'.ownedRoot = engine.ownedRoot ∧
        (engine'.state = engine.state ∨ engine.state = .enabled ∧ engine'.state = .poisoned)) := by
  rw [disable, ensures_bind]
  refine ensures_ensureEnabled (fun root hstate hpoll hroot => ?_) fun fault _ => ⟨rfl, .inl rfl⟩
  simp only [ensures_rules, ensures_onRegisters]
  rw [Ensures]
  split
  · exact ⟨hstate, rfl, trivial⟩
  · rw [Ensures]
    split
    · exact ⟨rfl, .inl hstate.symm⟩
    · exact ⟨rfl, .inr ⟨hstate, rfl⟩⟩

end Engine

end Sisyphus.Vtd
