import Sisyphus.Foundation.Run
import Sisyphus.Pci.Configuration

/-!
# Bus-master containment

A model of the three bus-master transactions of `hw/pci.rs`.  A caller that has measured a BAR0
aperture trades it for a `BusMasterLease`, and gets the aperture back by revoking the lease.  When
an access fails in between, it is left with a `BusMasterDebt`, from which the aperture can be
recovered only by retrying the revocation.

The command register is not known after a write that failed, nor after one that reported success
but did not read back.  What carries the safety argument is therefore a relation between what the
caller holds and the register (`Contained`): a bare aperture means that the bus-master bit is
clear, and nothing is said while a lease or a debt is outstanding.  It is kept by every transaction
whatever its accesses do.
-/

set_option autoImplicit false

namespace Sisyphus.Pci

open Fallible Run

/-! ## Faults, leases and debts -/

/-- The exact configuration fault that prevented a bus-master transition. -/
inductive BusMasterFault
  | configurationAccessFailed (offset : UInt8)
  | expectedAddressMismatch
  | apertureConfigurationMismatch
  | configurationChanged (offset : UInt8)
  | commandWriteFailed
  | commandReadbackFailed
  | commandReadbackMismatch (expected observed : UInt16)

/-- Last command-register state observed while containing a DMA transition. -/
inductive BusMasterCommandState
  | safe (command : UInt16)
  | enabled (command : UInt16)
  | observed (command : UInt16)
  | unknown

namespace PciExpectedConfiguration

def measuredCommand (expected : PciExpectedConfiguration) : UInt16 :=
  expected.command &&& ~~~(commandIoSpace ||| commandBusMaster)

def nonDecodeControls (expected : PciExpectedConfiguration) : UInt16 :=
  expected.command &&& ~~~commandDecodeAndMaster

def enabledCommand (expected : PciExpectedConfiguration) : UInt16 :=
  expected.nonDecodeControls ||| commandMemorySpace ||| commandBusMaster

def safeCommand (expected : PciExpectedConfiguration) : UInt16 :=
  expected.nonDecodeControls ||| commandMemorySpace

theorem safeCommand_and_busMaster (expected : PciExpectedConfiguration) :
    expected.safeCommand &&& commandBusMaster = 0 := by
  have hcontrols : expected.nonDecodeControls &&& commandBusMaster = 0 := by
    rw [nonDecodeControls, UInt16.and_assoc,
      show ~~~commandDecodeAndMaster &&& commandBusMaster = 0 from rfl, UInt16.and_zero]
  have hsplit : expected.safeCommand &&& commandBusMaster =
      expected.nonDecodeControls &&& commandBusMaster |||
        commandMemorySpace &&& commandBusMaster :=
    UInt16.toBitVec_inj.mp BitVec.and_or_distrib_right
  rw [hsplit, hcontrols]
  rfl

end PciExpectedConfiguration

/-- What a lease and a debt have in common: the aperture that authorised the transition, and the
two command values the transition moves between.  The source keeps the values; that they are the
ones derived from the evidence is the invariant of the two private types. -/
structure BusMasterTransition where
  aperture : Bar0ApertureLease
  expected : PciExpectedConfiguration
  enabledCommand : UInt16
  safeCommand : UInt16
  enabled_eq : enabledCommand = expected.enabledCommand
  safe_eq : safeCommand = expected.safeCommand

/-- Exclusive proof that PCI memory decode and bus mastering were enabled. -/
structure BusMasterLease extends BusMasterTransition

/-- Ownership receipt for a bus-master transition whose safe state is not yet proven. -/
structure BusMasterDebt extends BusMasterTransition where
  fault : BusMasterFault
  commandState : BusMasterCommandState

inductive BusMasterEnableFailure
  | rejected (fault : BusMasterFault) (aperture : Bar0ApertureLease)
  | debt (debt : BusMasterDebt)

def classifyBusMasterCommand (observed safeCommand enabledCommand : UInt16) :
    BusMasterCommandState :=
  if observed = safeCommand then .safe observed
  else if observed = enabledCommand then .enabled observed
  else .observed observed

def busMasterDebt (held : BusMasterTransition) (fault : BusMasterFault)
    (commandState : BusMasterCommandState) : BusMasterDebt :=
  { held with fault, commandState }

/-! ## Transactions -/

section Transactions

variable {σ : Type} [ConfigurationSpace σ]

def busMasterRead (offset : UInt8) : EStateM BusMasterFault σ UInt32 :=
  mapErr (fun _ => .configurationAccessFailed offset) (readU32 offset)

def retainedBar0Base (expected : PciExpectedConfiguration) : Option UInt64 :=
  bar0Base expected.rawBars

def observeRetainedConfiguration (expected : PciExpectedConfiguration) :
    EStateM BusMasterFault σ UInt16 := do
  let vendorDevice ← busMasterRead 0x00
  refuse (vendorDevice != expected.vendorDevice) (.configurationChanged 0x00)
  let classRevision ← busMasterRead 0x08
  refuse (classRevision != expected.classRevision) (.configurationChanged 0x08)
  let header ← busMasterRead headerOffset
  refuse ((header >>> 16).toUInt8 != expected.headerType) (.configurationChanged headerOffset)
  forM (List.finRange barCount) fun index => do
    let bar ← busMasterRead (barOffset index)
    refuse (bar != expected.rawBars index) (.configurationChanged (barOffset index))
  mapErr (fun _ => .configurationAccessFailed commandOffset) readCommand

def enableBusMasterTransaction (aperture : Bar0ApertureLease)
    (expected : PciExpectedConfiguration) :
    EStateM BusMasterEnableFailure σ BusMasterLease := do
  refuse (aperture.address != expected.address) (.rejected .expectedAddressMismatch aperture)
  refuse (retainedBar0Base expected != some aperture.physicalBase)
    (.rejected .apertureConfigurationMismatch aperture)
  let observedCommand ←
    mapErr (fun fault => .rejected fault aperture) (observeRetainedConfiguration expected)
  refuse (observedCommand != expected.measuredCommand)
    (.rejected (.configurationChanged commandOffset) aperture)
  let held : BusMasterTransition :=
    ⟨aperture, expected, expected.enabledCommand, expected.safeCommand, rfl, rfl⟩
  match ← attempt (writeCommand held.enabledCommand) with
  | .error _ => throw (.debt (busMasterDebt held .commandWriteFailed .unknown))
  | .ok _ =>
    match ← attempt readCommand with
    | .ok observed =>
      if observed = held.enabledCommand then pure ⟨held⟩
      else throw (.debt (busMasterDebt held
        (.commandReadbackMismatch held.enabledCommand observed)
        (classifyBusMasterCommand observed held.safeCommand held.enabledCommand)))
    | .error _ => throw (.debt (busMasterDebt held .commandReadbackFailed .unknown))

def containBusMaster (held : BusMasterTransition) :
    EStateM BusMasterDebt σ Bar0ApertureLease := do
  match ← attempt (writeCommand held.safeCommand) with
  | .error _ => throw (busMasterDebt held .commandWriteFailed .unknown)
  | .ok _ =>
    match ← attempt readCommand with
    | .ok observed =>
      if observed = held.safeCommand then pure held.aperture
      else throw (busMasterDebt held (.commandReadbackMismatch held.safeCommand observed)
        (classifyBusMasterCommand observed held.safeCommand held.enabledCommand))
    | .error _ => throw (busMasterDebt held .commandReadbackFailed .unknown)

def revokeBusMasterTransaction (lease : BusMasterLease) :
    EStateM BusMasterDebt σ Bar0ApertureLease := do
  let held := lease.toBusMasterTransition
  let observed ← mapErr (fun fault => busMasterDebt held fault .unknown)
    (observeRetainedConfiguration held.expected)
  refuse (observed != held.enabledCommand)
    (busMasterDebt held (.configurationChanged commandOffset)
      (classifyBusMasterCommand observed held.safeCommand held.enabledCommand))
  containBusMaster held

def retryBusMasterRevokeTransaction (debt : BusMasterDebt) :
    EStateM BusMasterDebt σ Bar0ApertureLease := do
  let held := debt.toBusMasterTransition
  let observed ← mapErr (fun fault => busMasterDebt held fault .unknown)
    (observeRetainedConfiguration held.expected)
  if observed = held.safeCommand then pure held.aperture
  else
    refuse (observed != held.enabledCommand)
      (busMasterDebt held (.configurationChanged commandOffset) (.observed observed))
    containBusMaster held

end Transactions

/-! ## What a transaction leaves behind -/

section Specifications

variable {σ : Type} [ConfigurationSpace σ] (c : CommandRegister σ)

theorem ensures_busMasterRead (offset : UInt8) (s : σ) :
    Ensures (busMasterRead offset) s (fun _ t => c.command t = c.command s)
      fun _ t => c.command t = c.command s := by
  rw [busMasterRead, ensures_mapErr]
  exact c.read_u32 s offset

/-- Looking at the configuration changes nothing, and the command it reports is the one there. -/
theorem ensures_observeRetainedConfiguration (expected : PciExpectedConfiguration) (s : σ) :
    Ensures (observeRetainedConfiguration expected) s
      (fun v t => v = c.command s ∧ c.command t = c.command s)
      fun _ t => c.command t = c.command s := by
  simp only [observeRetainedConfiguration, ensures_rules]
  refine (ensures_busMasterRead c 0x00 s).imp_ok (fun _ t ht => ⟨fun _ => ht, fun _ => ?_⟩)
  refine (ensures_busMasterRead c 0x08 t).mono (fun _ u hu => ⟨fun _ => hu.trans ht, fun _ => ?_⟩)
    fun _ _ h => h.trans ht
  have hu := hu.trans ht
  refine (ensures_busMasterRead c headerOffset u).mono
    (fun _ v hv => ⟨fun _ => hv.trans hu, fun _ => ?_⟩) fun _ _ h => h.trans hu
  refine (ensures_forM (I := fun t => c.command t = c.command s) (hv.trans hu)
    fun index _ t ht => ?_).imp_ok (fun _ w hw => ?_)
  · rw [ensures_bind]
    refine (ensures_busMasterRead c (barOffset index) t).mono (fun _ u hu => ?_)
      fun _ _ h => h.trans ht
    exact ensures_refuse.mpr ⟨fun _ => hu.trans ht, fun _ => hu.trans ht⟩
  · rw [ensures_mapErr]
    exact (c.read_command w).mono (fun _ _ h => ⟨h.1.trans hw, h.2.trans hw⟩)
      fun _ _ h => h.trans hw

/-- The aperture comes back only after the safe command was read back. -/
theorem ensures_containBusMaster (held : BusMasterTransition) (s : σ) :
    Ensures (containBusMaster held) s
      (fun a t => a = held.aperture ∧ c.command t = held.safeCommand)
      fun d _ => d.aperture = held.aperture := by
  simp only [containBusMaster, ensures_bind, ensures_attempt]
  refine Ensures.of_forall (fun _ t => ?_) fun _ _ => rfl
  refine (c.read_command t).mono (fun observed u hu => ?_) fun _ _ _ => rfl
  rw [ensures_ite]
  exact ⟨fun h => ⟨rfl, hu.2.trans (hu.1.symm.trans h)⟩, fun _ => rfl⟩

/-- A lease or a debt keeps the aperture it was given, and a rejection, which hands it back, comes
before the first write. -/
theorem ensures_enableBusMasterTransaction (aperture : Bar0ApertureLease)
    (expected : PciExpectedConfiguration) (s : σ) :
    Ensures (enableBusMasterTransaction aperture expected) s
      (fun lease t => lease.aperture = aperture ∧ c.command t = lease.enabledCommand)
      fun failure t => (∃ fault, failure = .rejected fault aperture ∧ c.command t = c.command s) ∨
        ∃ debt, failure = .debt debt ∧ debt.aperture = aperture := by
  simp only [enableBusMasterTransaction, ensures_rules, ensures_mapErr, ensures_attempt]
  refine ⟨fun _ => .inl ⟨_, rfl, trivial⟩, fun _ => ⟨fun _ => .inl ⟨_, rfl, trivial⟩, fun _ => ?_⟩⟩
  refine (ensures_observeRetainedConfiguration c expected s).mono (fun _ t ht => ?_)
    fun _ _ h => .inl ⟨_, rfl, h⟩
  refine ⟨fun _ => .inl ⟨_, rfl, ht.2⟩, fun _ => ?_⟩
  refine Ensures.of_forall (fun _ u => ?_) fun _ _ => .inr ⟨_, rfl, rfl⟩
  refine (c.read_command u).mono (fun observed v hv => ?_) fun _ _ _ => .inr ⟨_, rfl, rfl⟩
  rw [ensures_ite]
  exact ⟨fun h => ⟨rfl, hv.2.trans (hv.1.symm.trans h)⟩, fun _ => .inr ⟨_, rfl, rfl⟩⟩

theorem ensures_revokeBusMasterTransaction (lease : BusMasterLease) (s : σ) :
    Ensures (revokeBusMasterTransaction lease) s
      (fun a t => a = lease.aperture ∧ c.command t = lease.safeCommand)
      fun d _ => d.aperture = lease.aperture := by
  simp only [revokeBusMasterTransaction, ensures_rules, ensures_mapErr]
  refine (ensures_observeRetainedConfiguration c _ s).mono (fun _ t _ => ?_) fun _ _ _ => rfl
  exact ⟨fun _ => rfl, fun _ => ensures_containBusMaster c _ t⟩

/-- A retry that finds the safe command there does not write at all. -/
theorem ensures_retryBusMasterRevokeTransaction (debt : BusMasterDebt) (s : σ) :
    Ensures (retryBusMasterRevokeTransaction debt) s
      (fun a t => a = debt.aperture ∧ c.command t = debt.safeCommand)
      fun d _ => d.aperture = debt.aperture := by
  simp only [retryBusMasterRevokeTransaction, ensures_rules, ensures_mapErr, ensures_ite]
  refine (ensures_observeRetainedConfiguration c _ s).mono (fun observed t ht => ?_)
    fun _ _ _ => rfl
  refine ⟨fun h => ht.2.trans (ht.1.symm.trans h), fun _ => ⟨fun _ => rfl, fun _ => ?_⟩⟩
  exact ensures_containBusMaster c _ t

end Specifications

/-! ## The caller

The three values are linear in the source: a caller owns exactly one of them, and each transaction
consumes it. -/

/-- What the caller of the transactions owns. -/
inductive Holding
  | bare (aperture : Bar0ApertureLease)
  | lease (lease : BusMasterLease)
  | debt (debt : BusMasterDebt)

def Holding.aperture : Holding → Bar0ApertureLease
  | .bare a => a
  | .lease held => held.aperture
  | .debt owed => owed.aperture

structure Caller (σ : Type) where
  function : σ
  holding : Holding

section Runs

variable {σ : Type} [ConfigurationSpace σ] (c : CommandRegister σ)

/-- A transaction, or anything else that happens to the function and is not a write to its command
register: the other registers may change, and the pattern of faults may. -/
inductive Action
  | enable (expected : PciExpectedConfiguration)
  | revoke
  | retry
  | elsewhere (change : σ → σ) (keeps : ∀ s, c.command (change s) = c.command s)

/-- What the caller owns after a transaction ended in an aperture or in a debt. -/
def settle : EStateM.Result BusMasterDebt σ Bar0ApertureLease → Caller σ
  | .ok aperture s => ⟨s, .bare aperture⟩
  | .error debt s => ⟨s, .debt debt⟩

/-- A transaction needs the value it consumes; without it, it cannot be called. -/
def transact (caller : Caller σ) : Action c → Unit × Caller σ
  | .enable expected =>
    match caller.holding with
    | .bare aperture =>
      match enableBusMasterTransaction aperture expected caller.function with
      | .ok lease s => ((), ⟨s, .lease lease⟩)
      | .error (.rejected _ aperture) s => ((), ⟨s, .bare aperture⟩)
      | .error (.debt debt) s => ((), ⟨s, .debt debt⟩)
    | _ => ((), caller)
  | .revoke =>
    match caller.holding with
    | .lease lease => ((), settle (revokeBusMasterTransaction lease caller.function))
    | _ => ((), caller)
  | .retry =>
    match caller.holding with
    | .debt debt => ((), settle (retryBusMasterRevokeTransaction debt caller.function))
    | _ => ((), caller)
  | .elsewhere change _ => ((), { caller with function := change caller.function })

/-- A caller that owns the bare aperture knows that the function cannot master the bus. -/
structure Contained (aperture : Bar0ApertureLease) (caller : Caller σ) : Prop where
  clear : ∀ a, caller.holding = .bare a → c.command caller.function &&& commandBusMaster = 0
  aperture_eq : caller.holding.aperture = aperture

variable {c} {aperture : Bar0ApertureLease}

theorem contained_settle {x : EStateM BusMasterDebt σ Bar0ApertureLease} {s : σ}
    {held : BusMasterTransition} (hheld : held.aperture = aperture)
    (hx : Ensures x s (fun a t => a = held.aperture ∧ c.command t = held.safeCommand)
      fun d _ => d.aperture = held.aperture) : Contained c aperture (settle (x s)) := by
  obtain ⟨a, t, hxs, rfl, hcommand⟩ | ⟨d, t, hxs, hd⟩ := hx.cases
  · rw [hxs]
    refine ⟨fun _ _ => ?_, hheld⟩
    change c.command t &&& commandBusMaster = 0
    rw [hcommand, held.safe_eq, held.expected.safeCommand_and_busMaster]
  · rw [hxs]
    exact ⟨fun _ h => (by cases h), hd.trans hheld⟩

theorem Contained.enable {s : σ} (h : Contained c aperture ⟨s, .bare aperture⟩)
    (expected : PciExpectedConfiguration) :
    Contained c aperture (transact c ⟨s, .bare aperture⟩ (.enable expected)).2 := by
  obtain ⟨lease, t, hx, hlease, -⟩ | ⟨failure, t, hx, hfailure⟩ :=
    (ensures_enableBusMasterTransaction c aperture expected s).cases
  · simp only [transact, hx]
    exact ⟨fun _ h => (by cases h), hlease⟩
  · obtain ⟨fault, rfl, hsame⟩ | ⟨debt, rfl, hdebt⟩ := hfailure
    · simp only [transact, hx]
      exact ⟨fun _ _ => hsame ▸ h.clear _ rfl, rfl⟩
    · simp only [transact, hx]
      exact ⟨fun _ h => (by cases h), hdebt⟩

/-- Every transaction, however its accesses end, keeps the caller contained. -/
theorem Contained.transact {caller : Caller σ} (h : Contained c aperture caller)
    (action : Action c) : Contained c aperture (transact c caller action).2 := by
  obtain ⟨s, holding⟩ := caller
  cases action with
  | elsewhere change keeps => exact ⟨fun a ha => (keeps s).symm ▸ h.clear a ha, h.aperture_eq⟩
  | enable expected =>
    cases holding with
    | bare a =>
      obtain rfl : a = aperture := h.aperture_eq
      exact h.enable expected
    | lease lease | debt debt => exact h
  | revoke =>
    cases holding with
    | bare a => exact h
    | lease lease =>
      exact contained_settle h.aperture_eq (ensures_revokeBusMasterTransaction c lease s)
    | debt debt => exact h
  | retry =>
    cases holding with
    | bare a | lease lease => exact h
    | debt debt =>
      exact contained_settle h.aperture_eq (ensures_retryBusMasterRevokeTransaction c debt s)

/-- **Containment.**  After any transactions on a function that started with bus mastering off, a
caller that owns the bare aperture finds the bus-master bit clear, and the aperture it owns, bare or
inside a lease or a debt, is the one it started with. -/
theorem bare_aperture_only_while_bus_master_clear (c : CommandRegister σ) (s : σ)
    (aperture : Bar0ApertureLease) (hoff : c.command s &&& commandBusMaster = 0)
    (actions : List (Action c)) :
    let caller := final (transact c) ⟨s, .bare aperture⟩ actions
    (∀ a, caller.holding = .bare a → c.command caller.function &&& commandBusMaster = 0) ∧
      caller.holding.aperture = aperture := by
  have hstart : Contained c aperture ⟨s, .bare aperture⟩ := ⟨fun _ _ => hoff, rfl⟩
  have hfinal : Contained c aperture (final (transact c) ⟨s, .bare aperture⟩ actions) :=
    invariant_final (fun _ action h => h.transact action) hstart
  exact ⟨hfinal.clear, hfinal.aperture_eq⟩

end Runs

/-! ### A run with an ambiguous and an ignored write

The write that enables bus mastering takes effect but is reported as failed; the write of the first
retry is ignored, and the second retry ends the debt. -/

def sampleAddress : PciAddress := ⟨0, 20, 0⟩

/-- A 64-bit memory BAR0 at `0x1_8000_0000`, and no other BAR. -/
def sampleBars (index : Fin barCount) : UInt32 :=
  if index = 0 then 0x80000004 else if index = 1 then 1 else 0

def sampleExpected : PciExpectedConfiguration where
  address := sampleAddress
  vendorId := 0x1234
  deviceId := 0x5678
  classCode := 0
  subclass := 0
  programmingInterface := 0
  revision := 0
  headerType := 0
  command := commandDecodeAndMaster
  rawBars := sampleBars
  present := by decide
  typeZero := rfl

def sampleAperture : Bar0ApertureLease where
  address := sampleAddress
  physicalBase := 0x180000000
  length := 0x1000
  assigned := by decide
  aligned := by decide
  fits := by decide

def sampleDword (offset : UInt8) : UInt32 :=
  if offset = 0 then 0x56781234
  else if offset = 0x10 then 0x80000004
  else if offset = 0x14 then 1
  else 0

def sampleFunction (outcomes : List Outcome) : PciFunction where
  command := commandMemorySpace
  dword := sampleDword
  latch _ value := value
  outcomes := outcomes

def sampleOutcomes : List Outcome :=
  List.replicate 10 .done ++ [.failed true] ++ List.replicate 10 .done ++ [.ignored]

theorem bus_master_clear_after_two_faults :
    let start : Caller PciFunction := ⟨sampleFunction sampleOutcomes, .bare sampleAperture⟩
    let step := transact PciFunction.registers.toCommandRegister
    (final step start [.enable sampleExpected, .retry]).function.command =
        sampleExpected.enabledCommand ∧
      (final step start [.enable sampleExpected, .retry, .retry]).function.command =
        commandMemorySpace ∧
      (final step start [.enable sampleExpected, .retry, .retry]).holding.aperture =
        sampleAperture :=
  ⟨by decide +kernel, by decide +kernel,
    (bare_aperture_only_while_bus_master_clear PciFunction.registers.toCommandRegister
      (sampleFunction sampleOutcomes) sampleAperture (by decide)
      [.enable sampleExpected, .retry, .retry]).2⟩

end Sisyphus.Pci
