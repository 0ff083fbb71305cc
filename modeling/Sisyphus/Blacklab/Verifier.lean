import Sisyphus.Blacklab.Vm
import Mathlib.Logic.Relation

/-!
# What the verifier is good for

A verified program goes forward at every step (`step_cases`), so its 128 units of fuel are enough
for 64 instructions, and every instruction it meets decodes.  But it may walk past its end: the
verifier wants a `Halt` somewhere, not behind every path.  A program that jumps over its only `Halt`
is accepted and falls off (`straggler_falls_off`).

What is missing can be said of the program alone.  `Edge` is its flow of control, in which a jump is
taken or not whatever the registers hold, and `Guarded` asks that the last instruction, if the flow
of control comes to it at all, is a `Halt`.  Verified programs that are guarded return their
controls for all metrics (`execute_halts`); those whose last instruction is a `Halt` are guarded
(`execute_halts_of_last`).
-/

set_option autoImplicit false

namespace Sisyphus.Blacklab

open Fallible List Option

variable {program : LabProgram} {s : Machine}

/-- What `verify` has seen to at one instruction. -/
structure Checked (program : LabProgram) (pc : Nat) : Prop where
  decodes : (program.fetch pc).opcode.isSome
  metric : (program.fetch pc).opcode = some .loadMetric →
    (MetricId.fromRaw (program.fetch pc).immediateByte).isSome
  control : (program.fetch pc).opcode = some .setControl →
    (ControlField.fromRaw (program.fetch pc).auxiliary).isSome
  forward : (program.fetch pc).opcode = some .jumpIfZero →
    pc < (program.fetch pc).auxiliary.toNat ∧
      (program.fetch pc).auxiliary.toNat < program.length.toNat

theorem checked_of_verifyAt {seen found : Bool} {pc : Nat}
    (h : verifyAt program seen pc = .ok found) : Checked program pc := by
  rw [verifyAt, except_bind_eq_ok] at h
  obtain ⟨opcode, hopcode, h⟩ := h
  rw [okOr_eq_ok] at hopcode
  refine ⟨by rw [hopcode]; rfl, fun hop => ?_, fun hop => ?_, fun hop => ?_⟩
  all_goals
    obtain rfl := some.inj (hopcode.symm.trans hop)
    obtain ⟨_, hfound, -⟩ := except_bind_eq_ok.mp h
  · rw [okOr_eq_ok.mp hfound]
    rfl
  · rw [okOr_eq_ok.mp hfound]
    rfl
  · rw [reject_eq_ok, Bool.or_eq_false_iff, decide_eq_false_iff_not, decide_eq_false_iff_not]
      at hfound
    omega

theorem checked_of_verify (h : verify program = .ok ()) :
    program.length.toNat ≠ 0 ∧ program.length.toNat ≤ maxInstructions ∧
      ∀ pc < program.length.toNat, Checked program pc := by
  simp only [verify, except_bind_eq_ok, reject_eq_ok] at h
  obtain ⟨-, hempty, -, hlong, hasHalt, hloop, -⟩ := h
  have hall := foldlM_eq_ok (I := fun done _ => ∀ pc ∈ done, Checked program pc) hloop
    (forall_mem_nil _) fun done pc _ x y hdone hstep =>
      forall_mem_concat.mpr ⟨hdone, checked_of_verifyAt hstep⟩
  exact ⟨by simpa using hempty, by simpa using hlong, fun pc hpc => hall pc (mem_range.mpr hpc)⟩

/-- Control can go from one instruction to another, whatever the registers hold. -/
def Edge (program : LabProgram) (pc next : Nat) : Prop :=
  (program.fetch pc).opcode ≠ some .halt ∧
    (next = pc + 1 ∨
      (program.fetch pc).opcode = some .jumpIfZero ∧ next = (program.fetch pc).auxiliary.toNat)

instance (program : LabProgram) (pc next : Nat) : Decidable (Edge program pc next) :=
  inferInstanceAs (Decidable (_ ∧ _))

/-- This is the last instruction, and not a `Halt`. -/
def Strays (program : LabProgram) (pc : Nat) : Prop :=
  pc + 1 = program.length.toNat ∧ (program.fetch pc).opcode ≠ some .halt

/-- No path of the flow of control leads over the end of the program. -/
def Guarded (program : LabProgram) : Prop :=
  ∀ pc, Relation.ReflTransGen (Edge program) 0 pc → ¬Strays program pc

/-- **One step** stops at a `Halt` or goes along an edge, forward, and leaves the program from its
last instruction only. -/
theorem step_cases (hs : Checked program s.pc) (metrics : LabMetrics) :
    step program metrics s = .ok none ∨
      ∃ t, step program metrics s = .ok (some t) ∧ Edge program s.pc t.pc ∧ s.pc < t.pc ∧
        (t.pc = s.pc + 1 ∨ t.pc < program.length.toNat) := by
  obtain ⟨opcode, hop⟩ := isSome_iff_exists.mp hs.decodes
  have hnext : ∀ t : Machine, opcode ≠ .halt → t.pc = s.pc + 1 →
      Edge program s.pc t.pc ∧ s.pc < t.pc ∧
        (t.pc = s.pc + 1 ∨ t.pc < program.length.toNat) := by
    intro t hhalt hpc
    exact ⟨⟨by rwa [hop, ne_eq, some.injEq], .inl hpc⟩, by omega, .inl hpc⟩
  cases opcode with
  | halt =>
    left
    simp only [step, hop]
    rfl
  | loadMetric =>
    obtain ⟨metric, hmetric⟩ := isSome_iff_exists.mp (hs.metric hop)
    exact .inr ⟨_, by simp only [step, hop, hmetric]; rfl, by exact hnext _ (by decide) rfl⟩
  | setControl =>
    obtain ⟨field, hfield⟩ := isSome_iff_exists.mp (hs.control hop)
    exact .inr ⟨_, by simp only [step, hop, hfield]; rfl, by exact hnext _ (by decide) rfl⟩
  | jumpIfZero =>
    obtain ⟨hforward, hinside⟩ := hs.forward hop
    refine .inr ⟨_, by simp only [step, hop]; rfl, ⟨by simp [hop], ?_⟩, ?_⟩
    all_goals
      dsimp only
      split
    · exact .inr ⟨hop, rfl⟩
    · exact .inl rfl
    · exact ⟨hforward, .inr hinside⟩
    · exact ⟨Nat.lt_succ_self _, .inl rfl⟩
  | _ =>
    exact .inr ⟨_, by simp only [step, hop]; rfl, by exact hnext _ (by decide) rfl⟩

/-- **A run** ends at a `Halt`, or has followed the flow of control to a last instruction that is
none, when there is fuel for what is left. -/
theorem loop_cases (metrics : LabMetrics) (fuel : Nat)
    (hall : ∀ pc < program.length.toNat, Checked program pc) (hs : s.pc < program.length.toNat)
    (hfuel : program.length.toNat ≤ s.pc + fuel) :
    (∃ control, loop program metrics fuel s = .ok control) ∨
      loop program metrics fuel s = .error .fellOffProgram ∧
        ∃ pc, Relation.ReflTransGen (Edge program) s.pc pc ∧ Strays program pc := by
  induction fuel generalizing s with
  | zero => omega
  | succ fuel ih =>
    rw [loop, if_pos hs]
    rcases step_cases (hall s.pc hs) metrics with hstep | ⟨t, hstep, hedge, hlt, hinside⟩
    · exact .inl ⟨s.control, by simp [hstep, bind, Except.bind, pure, Except.pure]⟩
    · simp only [hstep, bind, Except.bind]
      by_cases hlast : t.pc < program.length.toNat
      · refine (ih hlast (by omega)).imp_right fun ⟨hfell, pc, hreach, hstray⟩ => ?_
        exact ⟨hfell, pc, .head hedge hreach, hstray⟩
      · exact .inr ⟨by rw [loop.eq_def, if_neg hlast], s.pc, .refl, by omega, hedge.1⟩

theorem execute_cases (hverified : verify program = .ok ()) (metrics : LabMetrics) :
    (∃ control, execute program metrics = .ok control) ∨
      execute program metrics = .error .fellOffProgram ∧ ¬Guarded program := by
  obtain ⟨hne, hle, hall⟩ := checked_of_verify hverified
  have hexecute : execute program metrics =
      loop program metrics maximumFuel Machine.initial := by
    rw [execute, hverified]
    rfl
  rw [hexecute]
  refine (loop_cases (s := Machine.initial) metrics maximumFuel hall (Nat.pos_of_ne_zero hne)
    (le_trans hle (by decide))).imp_right fun ⟨hfell, pc, hreach, hstray⟩ => ?_
  exact ⟨hfell, fun hguarded => hguarded pc hreach hstray⟩

/-- A verified program that ends with a `Halt` returns its controls, for all metrics. -/
theorem execute_halts_of_last (hverified : verify program = .ok ())
    (hlast : (program.fetch (program.length.toNat - 1)).opcode = some .halt)
    (metrics : LabMetrics) : ∃ control, execute program metrics = .ok control := by
  refine (execute_cases hverified metrics).resolve_right fun ⟨_, hopen⟩ => hopen ?_
  intro pc _ hstray
  have hpc : program.length.toNat - 1 = pc := by
    have := hstray.1
    omega
  exact hstray.2 (hpc ▸ hlast)

/-- **Verified programs** never run out of fuel, and the guarded ones return their controls, for all
metrics. -/
theorem execute_halts (hverified : verify program = .ok ()) :
    (∀ metrics, execute program metrics ≠ .error .fuelExhausted) ∧
      (Guarded program → ∀ metrics, ∃ control, execute program metrics = .ok control) := by
  refine ⟨fun metrics hfuel => ?_, fun hguarded metrics =>
    (execute_cases hverified metrics).resolve_right fun h => h.2 hguarded⟩
  rcases execute_cases hverified metrics with ⟨control, hok⟩ | ⟨hfell, -⟩
  · cases hok.symm.trans hfuel
  · cases hfell.symm.trans hfuel

/-! ### Two programs -/

/-- A program that starts with these words. -/
def ofWords (words : List UInt64) : LabProgram where
  instructions pc := ⟨words.getD pc 0⟩
  length := UInt8.ofNat words.length

def restingMetrics : LabMetrics := ⟨0, 0, 0, 0, 0, 0, 0⟩

/-- `JumpIfZero r0, 2; Halt; Nop`. -/
def straggler : LabProgram := ofWords [0x2000000000007, 9, 0]

/-- The verifier accepts a program that jumps over its only `Halt`, and it falls off its end. -/
theorem straggler_falls_off : verify straggler = .ok () ∧
    execute straggler restingMetrics = .error .fellOffProgram :=
  ⟨by decide +kernel, rfl⟩

/-- `JumpIfZero r0, 2; Halt; Halt; Nop`. -/
def haltingProgram : LabProgram := ofWords [0x2000000000007, 9, 9, 0]

/-- Control stays before the instruction at the end. -/
theorem haltingProgram_guarded : Guarded haltingProgram := by
  have hedge : ∀ pc ≤ 2, ∀ next, Edge haltingProgram pc next → next ≤ 2 := by
    intro pc hpc next hnext
    interval_cases pc
    · rcases hnext.2 with rfl | ⟨-, rfl⟩ <;> decide
    all_goals exact absurd rfl hnext.1
  intro pc hreach
  have hpc : pc ≤ 2 := by
    induction hreach with
    | refl => decide
    | tail _ hnext ih => exact hedge _ ih _ hnext
  have hlength : haltingProgram.length.toNat = 4 := rfl
  rintro ⟨hlast, -⟩
  omega

theorem haltingProgram_halts : verify haltingProgram = .ok () ∧
    ∀ metrics, ∃ control, execute haltingProgram metrics = .ok control := by
  have hverified : verify haltingProgram = .ok () := by decide +kernel
  exact ⟨hverified, (execute_halts hverified).2 haltingProgram_guarded⟩

end Sisyphus.Blacklab
