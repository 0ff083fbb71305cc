import Mathlib.Data.UInt
import Mathlib.Tactic
import Mathlib.Algebra.BigOperators.Group.Finset.Basic
import Mathlib.Algebra.Order.BigOperators.Group.Finset

/-!
# Earliest deadline first

Periodic tasks on one processor, in unit time steps.  Task `i` has a share `share i` of the
processor, in units of `1 / one`, and a current job: what is left of it, its deadline, and when the
next one is released.  A task's period and cost appear only through `one * cost ≤ share * period`.

The classical argument looks back from a missed deadline to the last moment at which the processor
did something less urgent.  Here the same counting is an invariant that looks forward.  For a
horizon `D`, `load` is the work a task can still bring in by `D`: the rest of its job if that is
due by `D`, and its share of the time after the next release.  `Feasible` says that at time `t`
these add up to no more than the tasks' shares of the time from `t` to `D`, for every `D`.

* A release does not add to any load (`Feasible.release`), and a task that comes in before its first
  release brings no more than its share (`Feasible.admit`).
* A step spent on the most urgent job takes one unit from the load of every horizon that the job is
  due by, and for the other horizons no job counts at all (`Feasible.run`, `Feasible.idle`).
* At the horizon `D = t` nothing is left to do (`Feasible.remaining_eq_zero`).
-/

set_option autoImplicit false

namespace Sisyphus.Edf

open Finset Function

variable {ι : Type} [Fintype ι]

/-- The current job of a task. -/
structure Job where
  remaining : Nat
  deadline : Nat
  next : Nat

/-- The work of a task that is due by `D`. -/
def load (one D share : Nat) (job : Job) : Nat :=
  one * (if job.deadline ≤ D then job.remaining else 0) + share * (D - job.next)

/-- At time `t`, the work due by any horizon fits into the tasks' shares of the time until then. -/
def Feasible (one : Nat) (share : ι → Nat) (jobs : ι → Job) (t : Nat) : Prop :=
  ∀ D, t ≤ D → ∑ i, load one D (share i) (jobs i) ≤ (∑ i, share i) * (D - t)

variable {one t : Nat} {share : ι → Nat} {jobs : ι → Job} {i : ι}

/-- **Deadlines are met.** -/
theorem Feasible.remaining_eq_zero (h : Feasible one share jobs t) (hone : 0 < one)
    (hdue : (jobs i).deadline ≤ t) : (jobs i).remaining = 0 := by
  have hsum := h t le_rfl
  rw [Nat.sub_self, Nat.mul_zero, Nat.le_zero, sum_eq_zero_iff] at hsum
  have hload := hsum i (mem_univ i)
  rw [load, if_pos hdue, Nat.add_eq_zero_iff] at hload
  exact (Nat.mul_eq_zero.mp hload.1).resolve_left hone.ne'

section Changes

variable [DecidableEq ι]

/-- What a change at one place does to a sum. -/
theorem sum_change (f g : ι → Nat) (h : ∀ j, j ≠ i → g j = f j) :
    ∑ j, g j + f i = ∑ j, f j + g i := by
  have hrest : ∑ j ∈ univ.erase i, g j = ∑ j ∈ univ.erase i, f j :=
    sum_congr rfl fun j hj => h j (ne_of_mem_erase hj)
  rw [← add_sum_erase _ f (mem_univ i), ← add_sum_erase _ g (mem_univ i), hrest]
  omega

/-- A change of one job that adds to none of its loads. -/
protected theorem Feasible.update (h : Feasible one share jobs t) {i : ι} {job : Job}
    (hload : ∀ D, load one D (share i) job ≤ load one D (share i) (jobs i)) :
    Feasible one share (update jobs i job) t := by
  intro D hD
  refine le_trans (sum_le_sum fun j _ => ?_) (h D hD)
  by_cases hj : j = i
  · subst hj
    rw [update_self]
    exact hload D
  · rw [update_of_ne hj]

/-- **A release.** -/
theorem Feasible.release (h : Feasible one share jobs t) {cost period : Nat}
    (hshare : one * cost ≤ share i * period) :
    Feasible one share (update jobs i
      ⟨cost, (jobs i).next + period, (jobs i).next + period⟩) t := by
  refine h.update fun D => ?_
  simp only [load]
  by_cases hdue : (jobs i).next + period ≤ D
  · have hsplit : D - (jobs i).next = period + (D - ((jobs i).next + period)) := by omega
    rw [if_pos hdue, hsplit, Nat.mul_add]
    omega
  · have hlate : D - ((jobs i).next + period) = 0 := by omega
    rw [if_neg hdue, hlate]
    omega

/-- **A task that comes in**, no later than its first release, where there was none. -/
theorem Feasible.admit (h : Feasible one share jobs t) {q : Nat} {job : Job}
    (hshare : share i = 0) (hold : (jobs i).remaining = 0) (hnew : job.remaining = 0)
    (hnext : t ≤ job.next) :
    Feasible one (update share i q) (update jobs i job) t := by
  intro D hD
  have hloads := sum_change (fun j => load one D (share j) (jobs j))
    (fun j => load one D (update share i q j) (update jobs i job j)) (i := i)
    fun j hj => by rw [update_of_ne hj, update_of_ne hj]
  have hshares := sum_change share (update share i q)
    fun _ hj => update_of_ne hj _ _
  have hold : load one D (share i) (jobs i) = 0 := by simp [load, hshare, hold]
  have hnew : load one D (update share i q i) (update jobs i job i) =
      q * (D - job.next) := by
    simp [load, hnew]
  rw [hshare, update_self, Nat.add_zero] at hshares
  have hsum := h D hD
  have hle : q * (D - job.next) ≤ q * (D - t) := Nat.mul_le_mul_left q (by omega)
  rw [hshares, Nat.add_mul]
  omega

/-- One unit of a job done is one unit less for every horizon the job is due by. -/
theorem sum_load_run (one : Nat) (share : ι → Nat) {D : Nat} (hrun : (jobs i).remaining ≠ 0)
    (hdue : (jobs i).deadline ≤ D) :
    ∑ j, load one D (share j) (update jobs i
      { jobs i with remaining := (jobs i).remaining - 1 } j) + one =
        ∑ j, load one D (share j) (jobs j) := by
  have hloads := sum_change (fun j => load one D (share j) (jobs j))
    (fun j => load one D (share j) (update jobs i
      { jobs i with remaining := (jobs i).remaining - 1 } j)) (i := i)
    fun j hj => by rw [update_of_ne hj]
  obtain ⟨k, hk⟩ := Nat.exists_eq_succ_of_ne_zero hrun
  simp only [update_self, load, hdue, if_true, hk, Nat.succ_eq_add_one,
    Nat.add_sub_cancel, Nat.mul_add, Nat.mul_one] at hloads ⊢
  omega

end Changes

/-- When no job that is due by `D` is unfinished, only the releases to come count. -/
theorem sum_load_le {D : Nat} (hnext : ∀ i, share i = 0 ∨ t < (jobs i).next)
    (hdone : ∀ i, (jobs i).deadline ≤ D → (jobs i).remaining = 0) :
    ∑ i, load one D (share i) (jobs i) ≤ (∑ i, share i) * (D - (t + 1)) := by
  rw [sum_mul]
  refine sum_le_sum fun i _ => ?_
  have hzero : (if (jobs i).deadline ≤ D then (jobs i).remaining else 0) = 0 := by
    split
    · next hdue => exact hdone i hdue
    · rfl
  rw [load, hzero, Nat.mul_zero, Nat.zero_add]
  rcases hnext i with hnone | hlater
  · rw [hnone, Nat.zero_mul, Nat.zero_mul]
  · exact Nat.mul_le_mul_left _ (by omega)

/-- **An idle step.** -/
theorem feasible_idle (hnext : ∀ i, share i = 0 ∨ t < (jobs i).next)
    (hdone : ∀ i, (jobs i).remaining = 0) : Feasible one share jobs (t + 1) :=
  fun _ _ => sum_load_le hnext fun i _ => hdone i

/-- **A step spent on the most urgent job.** -/
theorem Feasible.run [DecidableEq ι] (h : Feasible one share jobs t) {i : ι}
    (hfull : ∑ j, share j ≤ one) (hnext : ∀ j, share j = 0 ∨ t < (jobs j).next)
    (hrun : (jobs i).remaining ≠ 0)
    (hurgent : ∀ j, (jobs j).remaining ≠ 0 → (jobs i).deadline ≤ (jobs j).deadline) :
    Feasible one share
      (update jobs i { jobs i with remaining := (jobs i).remaining - 1 }) (t + 1) := by
  intro D hD
  by_cases hdue : (jobs i).deadline ≤ D
  · have hunit := sum_load_run one share hrun hdue
    have hsum := h D (by omega)
    have hsplit : (∑ j, share j) * (D - t) = (∑ j, share j) * (D - (t + 1)) + ∑ j, share j := by
      rw [show D - t = D - (t + 1) + 1 by omega, Nat.mul_add, Nat.mul_one]
    omega
  · -- no unfinished job counts for this horizon
    have hdone : ∀ j, (jobs j).deadline ≤ D → (jobs j).remaining = 0 := by
      intro j hj
      by_contra hleft
      exact hdue ((hurgent j hleft).trans hj)
    refine sum_load_le ?_ ?_
    · exact (forall_update_iff jobs fun j job => share j = 0 ∨ t < job.next).mpr
        ⟨hnext i, fun j _ => hnext j⟩
    · exact (forall_update_iff jobs fun _ job => job.deadline ≤ D → job.remaining = 0).mpr
        ⟨fun hj => absurd hj hdue, fun j _ => hdone j⟩

end Sisyphus.Edf
