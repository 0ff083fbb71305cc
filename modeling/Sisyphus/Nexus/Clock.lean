import Sisyphus.Nexus.Gateway
import Sisyphus.Foundation.Run

/-!
# The causal clock

A hybrid logical clock: `stamp` and `observe` move the physical tick forward where they can and
count the logical tick up where they cannot.  The logical tick stops counting at its largest value,
and from there on the clock gives the same stamp again, until a wall tick is ahead of it.
-/

set_option autoImplicit false

namespace Sisyphus.Nexus

open Words List Run

/-- The two ticks as one number, which orders the stamps by physical, then by logical tick. -/
def CausalStamp.time (s : CausalStamp) : Nat := s.physicalTick.toNat * 2 ^ 32 + s.logicalTick.toNat

namespace CausalClock

def new (node : UInt16) : CausalClock := ⟨node, 0, 0⟩

/-- The stamp that the clock last gave. -/
def last (c : CausalClock) : CausalStamp := ⟨c.physicalTick, c.logicalTick, c.node⟩

/-- `CausalClock::observe`, as the clock it leaves. -/
def observe (c : CausalClock) (remote : CausalStamp) (wallTick : UInt64) : CausalClock :=
  let merged := max (max wallTick c.physicalTick) remote.physicalTick
  { c with
    physicalTick := merged
    logicalTick :=
      if merged = c.physicalTick ∧ merged = remote.physicalTick then
        saturatingAdd32 (max c.logicalTick remote.logicalTick) 1
      else if merged = c.physicalTick then saturatingAdd32 c.logicalTick 1
      else if merged = remote.physicalTick then saturatingAdd32 remote.logicalTick 1
      else 0 }

inductive Call where
  | stamp (wallTick : UInt64)
  | observe (remote : CausalStamp) (wallTick : UInt64)

/-- The stamp that a call shows to the clock. -/
def Call.remote : Call → Option CausalStamp
  | .stamp _ => none
  | .observe remote _ => some remote

def step (c : CausalClock) : Call → CausalStamp × CausalClock
  | .stamp wallTick => (c.stamp wallTick, c.advance wallTick)
  | .observe remote wallTick => ((c.observe remote wallTick).last, c.observe remote wallTick)

/-- There is a stamp after the clock's own and the one it is shown: the wall tick is ahead of them,
or the logical tick of the later one can still be counted up. -/
def Room (c : CausalClock) : Call → Prop
  | .stamp wallTick => c.physicalTick < wallTick ∨ c.logicalTick < 0xffffffff
  | .observe remote wallTick =>
    max c.physicalTick remote.physicalTick < wallTick ∨
      (remote.physicalTick ≤ c.physicalTick → c.logicalTick < 0xffffffff) ∧
      (c.physicalTick ≤ remote.physicalTick → remote.logicalTick < 0xffffffff)

variable {c : CausalClock} {call : Call}

theorem last_step : (c.step call).2.last = (c.step call).1 := by
  cases call with
  | stamp wallTick =>
    simp only [step, stamp, last, advance]
    split <;> rfl
  | observe remote wallTick => rfl

/-- What one call gives.  A clock whose logical tick is 0 gets ahead of itself even without room. -/
theorem step_spec (c : CausalClock) (call : Call) :
    (c.Room call ↔ c.last.time < (c.step call).1.time ∧
      ∀ remote ∈ call.remote, remote.time < (c.step call).1.time) ∧
    (c.logicalTick = 0 → c.last.time < (c.step call).1.time) := by
  have hown := c.logicalTick.toNat_lt
  cases call with
  | stamp wallTick =>
    simp only [step, stamp, last, advance, Room, Call.remote, CausalStamp.time, Option.mem_def,
      UInt64.lt_iff_toNat_lt, UInt32.lt_iff_toNat_lt, ← UInt32.toNat_inj, reduceCtorEq,
      false_imp_iff, implies_true, and_true]
    split <;> simp [toNat_saturatingAdd32] <;> omega
  | observe remote wallTick =>
    have hshown := remote.logicalTick.toNat_lt
    simp only [step, observe, last, Room, Call.remote, CausalStamp.time, Option.mem_def,
      Option.some.injEq, forall_eq', UInt64.lt_iff_toNat_lt, UInt32.lt_iff_toNat_lt,
      UInt64.le_iff_toNat_le, ← UInt64.toNat_inj, ← UInt32.toNat_inj, UInt64.toNat_max,
      apply_ite UInt32.toNat, UInt32.toNat_max, toNat_saturatingAdd32, max_def,
      UInt32.reduceToNat]
    split_ifs <;> omega

/-- Every stamp is after the earlier ones and after the one its call showed. -/
def Causal (history : List (Call × CausalStamp)) : Prop :=
  (history.map (·.2.time)).Pairwise (· < ·) ∧
    ∀ entry ∈ history, ∀ remote ∈ entry.1.remote, remote.time < entry.2.time

/-- With room in every call, the stamps are also after the one that the clock gave before. -/
theorem everyStep_room_iff (c : CausalClock) (calls : List Call) : EveryStep step Room c calls ↔
    Causal ((.stamp 0, c.last) :: trace step c calls) := by
  induction calls generalizing c with
  | nil => simp [EveryStep, trace, Causal, Call.remote]
  | cons call rest ih =>
    obtain ⟨hroom, -⟩ := step_spec c call
    simp only [EveryStep, ih, hroom, last_step, trace, Causal, map_cons, forall_mem_cons,
      ← isChain_iff_pairwise, isChain_cons_cons]
    simp [Call.remote, and_assoc, and_left_comm]

/-- **The clock respects causality exactly when every call has room.** -/
theorem causal_iff (node : UInt16) (calls : List Call) :
    Causal (trace step (new node) calls) ↔ EveryStep step Room (new node) calls := by
  rw [everyStep_room_iff]
  cases calls with
  | nil => simp [trace, Causal, Call.remote]
  | cons call rest =>
    have hfirst := (step_spec (new node) call).2 rfl
    simp only [trace, Causal, map_cons, forall_mem_cons, ← isChain_iff_pairwise, isChain_cons_cons]
    simp [Call.remote, hfirst]

/-- A remote stamp with the largest logical tick is given back. -/
theorem largest_remote_given_back :
    ¬ Causal (trace step (new 1) [.observe ⟨5, 0xffffffff, 2⟩ 3]) := by
  rintro ⟨-, hafter⟩
  exact absurd (hafter _ (mem_singleton_self _) _ rfl) (by decide)

end CausalClock

end Sisyphus.Nexus
