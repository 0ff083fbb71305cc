import Sisyphus.Pci.BarProbe
import Sisyphus.Pci.BusMaster

/-!
# Enabling bus mastering again

`revoke_bus_master_transaction` hands back the aperture that `enable_bus_master_transaction` was
given, so that mastering can be enabled again with it.  The second time, `enable` still asks for the
command that the probe left behind, with the memory decode bit as the retained configuration has it.
What `revoke` leaves behind has that bit set.  So the rounds go on exactly if it was set all along.
-/

set_option autoImplicit false

namespace Sisyphus.Pci

open Fallible

section Rounds

variable {σ : Type} [ConfigurationSpace σ]

/-- So many times: enables bus mastering with the aperture at hand, and revokes the lease. -/
def busMasterRounds (expected : PciExpectedConfiguration) :
    Nat → Bar0ApertureLease → EStateM Unit σ Bar0ApertureLease
  | 0, aperture => pure aperture
  | n + 1, aperture => do
    let lease ← mapErr (fun _ => ()) (enableBusMasterTransaction aperture expected)
    let aperture ← mapErr (fun _ => ()) (revokeBusMasterTransaction lease)
    busMasterRounds expected n aperture

end Rounds

/-- A function without faults that is as it was retained, but for its command register, and the
aperture that was measured on it. -/
structure Unchanged (expected : PciExpectedConfiguration) (aperture : Bar0ApertureLease)
    (f : PciFunction) : Prop where
  faultless : f.outcomes = []
  address : aperture.address = expected.address
  base : retainedBar0Base expected = some aperture.physicalBase
  vendorDevice : f.dword 0x00 = expected.vendorDevice
  classRevision : f.dword 0x08 = expected.classRevision
  headerType : (f.dword headerOffset >>> 16).toUInt8 = expected.headerType
  bars : ∀ i, f.dword (barOffset i) = expected.rawBars i

variable {expected : PciExpectedConfiguration} {aperture : Bar0ApertureLease} {f : PciFunction}

namespace Unchanged

theorem withCommand (h : Unchanged expected aperture f) (command : UInt16) :
    Unchanged expected aperture { f with command } := { h with }

section Accesses

variable {Q : UInt32 → PciFunction → Prop} {R : UInt16 → PciFunction → Prop}
  {S : Unit → PciFunction → Prop} {E : Unit → PciFunction → Prop}

theorem ensures_readU32 (h : Unchanged expected aperture f) {offset : UInt8} :
    Ensures (readU32 offset) f Q E ↔ Q (f.dword offset) f := by
  cases f
  cases h.faultless
  rfl

theorem ensures_readCommand (h : Unchanged expected aperture f) :
    Ensures readCommand f R E ↔ R f.command f := by
  cases f
  cases h.faultless
  rfl

theorem ensures_writeCommand (h : Unchanged expected aperture f) {command : UInt16} :
    Ensures (writeCommand command) f S E ↔ S () { f with command } := by
  cases f
  cases h.faultless
  rfl

end Accesses

theorem ensures_observe (h : Unchanged expected aperture f) :
    Ensures (observeRetainedConfiguration expected) f (fun v g => v = f.command ∧ g = f)
      fun _ _ => False := by
  simp only [observeRetainedConfiguration, busMasterRead, ensures_rules, ensures_mapErr,
    h.ensures_readU32, h.vendorDevice, h.classRevision, h.headerType, bne_self_eq_false]
  refine (ensures_forM (I := fun g => g = f) rfl ?_).imp_ok ?_
  · simp [h.ensures_readU32, h.bars]
  · rintro _ _ rfl
    rw [h.ensures_readCommand]
    exact ⟨rfl, rfl⟩

/-- The command register is all that `enable` may find changed. -/
theorem ensures_enable (h : Unchanged expected aperture f) :
    Ensures (enableBusMasterTransaction aperture expected) f
      (fun lease g => f.command = expected.measuredCommand ∧ g = { f with
          command := expected.enabledCommand } ∧
        lease.aperture = aperture ∧ lease.expected = expected)
      fun _ _ => f.command ≠ expected.measuredCommand := by
  simp only [enableBusMasterTransaction, ensures_rules, ensures_mapErr, ensures_attempt, h.address,
    h.base, bne_self_eq_false]
  refine h.ensures_observe.mono ?_ fun _ _ hf => hf.elim
  rintro _ _ ⟨rfl, rfl⟩
  simp only [bne_iff_ne, bne_eq_false_iff_eq]
  refine ⟨fun hne => hne, fun heq => ?_⟩
  rw [h.ensures_writeCommand, (h.withCommand _).ensures_readCommand]
  simp [heq]

theorem ensures_revoke {lease : BusMasterLease} (hlease : lease.expected = expected)
    (h : Unchanged expected aperture f) (hcommand : f.command = expected.enabledCommand) :
    Ensures (revokeBusMasterTransaction lease) f
      (fun a g => a = lease.aperture ∧ g = { f with command := expected.safeCommand })
      fun _ _ => False := by
  have henabled : lease.enabledCommand = f.command := by rw [lease.enabled_eq, hlease, hcommand]
  have hsafe : lease.safeCommand = expected.safeCommand := by rw [lease.safe_eq, hlease]
  simp only [revokeBusMasterTransaction, ensures_rules, ensures_mapErr, hlease]
  refine h.ensures_observe.imp_ok ?_
  rintro _ _ ⟨rfl, rfl⟩
  simp only [henabled, bne_self_eq_false, Bool.false_eq_true, false_implies, true_implies, true_and,
    containBusMaster, ensures_bind, ensures_attempt, hsafe]
  rw [h.ensures_writeCommand, (h.withCommand _).ensures_readCommand]
  simp

/-- What the rounds need: the command that was measured, and for the second one that `revoke` leaves
the same. -/
theorem ensures_rounds (h : Unchanged expected aperture f) (n : Nat) :
    Ensures (busMasterRounds expected n aperture) f
      (fun a _ => a = aperture ∧ (n = 0 ∨ f.command = expected.measuredCommand) ∧
        (n ≤ 1 ∨ expected.safeCommand = expected.measuredCommand))
      fun _ _ => f.command = expected.measuredCommand →
        expected.safeCommand ≠ expected.measuredCommand := by
  induction n generalizing f with
  | zero => exact ⟨rfl, .inl rfl, .inl (Nat.zero_le 1)⟩
  | succ n ih =>
    simp only [busMasterRounds, ensures_bind, ensures_mapErr]
    refine h.ensures_enable.mono ?_ fun _ _ hne heq => absurd heq hne
    rintro lease _ ⟨hcommand, rfl, haperture, hexpected⟩
    refine (ensures_revoke hexpected (h.withCommand _) rfl).mono ?_ fun _ _ hf => hf.elim
    rintro _ _ ⟨rfl, rfl⟩
    rw [haperture]
    refine (ih (h.withCommand expected.safeCommand)).mono ?_ fun _ _ hne _ heq => hne heq heq
    rintro a g ⟨ha, hsafe, -⟩
    exact ⟨ha, .inr hcommand, hsafe.imp (fun hn => by omega) id⟩

end Unchanged

/-- `revoke` leaves the command that was measured if memory decoding was on. -/
theorem PciExpectedConfiguration.safeCommand_eq_measuredCommand_iff
    (expected : PciExpectedConfiguration) : expected.safeCommand = expected.measuredCommand ↔
      expected.command &&& commandMemorySpace ≠ 0 := by
  obtain ⟨x, hx⟩ : ∃ x, expected.command.toBitVec = x := ⟨_, rfl⟩
  have hbit : expected.command &&& commandMemorySpace ≠ 0 ↔ x.getLsbD 1 = true := by
    rw [Ne, ← UInt16.toBitVec_inj, UInt16.toBitVec_and, hx]
    change ¬x &&& BitVec.twoPow 16 1 = 0#16 ↔ _
    rw [BitVec.and_twoPow]
    cases x.getLsbD 1 <;> decide
  rw [hbit, ← UInt16.toBitVec_inj, safeCommand, measuredCommand, nonDecodeControls]
  simp only [UInt16.toBitVec_or, UInt16.toBitVec_and, UInt16.toBitVec_not, hx]
  change x &&& 0xfff8#16 ||| 0x2#16 = x &&& 0xfffa#16 ↔ _
  -- the two masks differ in this one bit
  refine ⟨fun h => by simpa using congrArg (BitVec.getLsbD · 1) h, fun h => ?_⟩
  refine BitVec.eq_of_getLsbD_eq fun i hi => ?_
  interval_cases i <;> simp [h]

/-- **Bus mastering can be cycled exactly when memory decoding was on.**  On a function without
faults that is as it was retained and measured, any number of rounds succeeds, each with the
aperture that the one before has given back, if and only if the retained command has the memory
decode bit. -/
theorem bus_master_cycles_iff (h : Unchanged expected aperture f)
    (hmeasured : f.command = expected.measuredCommand) :
    (∀ n, ∃ g, busMasterRounds expected n aperture f = .ok aperture g) ↔
      expected.command &&& commandMemorySpace ≠ 0 := by
  rw [← expected.safeCommand_eq_measuredCommand_iff]
  constructor
  · intro hall
    obtain ⟨g, hg⟩ := hall 2
    exact ((h.ensures_rounds 2).of_ok hg).2.2.resolve_left (by decide)
  · intro hsafe n
    rcases (h.ensures_rounds n).cases with ⟨_, g, hg, rfl, -⟩ | ⟨_, _, -, hne⟩
    · exact ⟨g, hg⟩
    · exact absurd hsafe (hne hmeasured)

theorem sampleFunction_cycles : sampleExpected.command &&& commandMemorySpace ≠ 0 ∧ ∀ n, ∃ g,
    busMasterRounds sampleExpected n sampleAperture (sampleFunction []) = .ok sampleAperture g :=
  ⟨by decide, (bus_master_cycles_iff
    ⟨rfl, rfl, by decide, by decide, by decide, by decide, by decide⟩ (by decide)).mpr (by decide)⟩

/-! ### Memory decoding off

A function with one window of 64 KiB whose command register was zero.  The probe succeeds and so
does the first round, but `enable` does not accept what the first `revoke` has left behind. -/

def windowFunction : PciFunction where
  command := 0
  dword offset := if offset = 0 then 0x56781234 else if offset = bar0Offset then 0xfe000000 else 0
  latch offset value := if offset = bar0Offset then value &&& 0xffff0000 else 0
  outcomes := []

def windowExpected : PciExpectedConfiguration :=
  { sampleExpected with command := 0, rawBars := fun i => if i = 0 then 0xfe000000 else 0 }

/-- The rounds end well. -/
def roundsSucceed (expected : PciExpectedConfiguration) (n : Nat) (aperture : Bar0ApertureLease)
    (f : PciFunction) : Bool :=
  match busMasterRounds expected n aperture f with
  | .ok _ _ => true
  | .error _ _ => false

theorem second_round_refused :
    (match probeBarLengths sampleAddress true (some windowExpected) windowFunction with
    | .ok (_, some aperture) f =>
      [1, 2].map fun n => roundsSucceed windowExpected n aperture f
    | _ => []) = [true, false] := by
  decide +kernel

end Sisyphus.Pci
