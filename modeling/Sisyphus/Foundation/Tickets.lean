import Mathlib.Data.UInt
import Mathlib.Tactic

/-!
# Tickets that are settled once

A component issues tickets, keeps some of them live, and settles a ticket by no longer keeping it.
What is settled in a step is what was live before and is not live after it.  `Sound` is the
invariant of the three lists, and `Sound.step` the only rule: as long as issued tickets are new and
nothing becomes live but what is issued, no ticket is settled twice.
-/

set_option autoImplicit false

namespace Sisyphus.Tickets

open List

variable {κ : Type} [DecidableEq κ]

/-- What is live before and not after. -/
def settledBetween (live live' : List κ) : List κ := live.filter fun k => k ∉ live'

/-- The tickets issued and settled so far, and the live ones. -/
structure Sound (issued settled live : List κ) : Prop where
  issued_nodup : issued.Nodup
  settled_nodup : settled.Nodup
  live_nodup : live.Nodup
  live_issued : ∀ k ∈ live, k ∈ issued
  settled_issued : ∀ k ∈ settled, k ∈ issued
  settled_gone : ∀ k ∈ settled, k ∉ live

variable {issued settled live live' new : List κ}

theorem mem_settledBetween {k : κ} : k ∈ settledBetween live live' ↔ k ∈ live ∧ k ∉ live' := by
  simp [settledBetween]

/-- Nothing is settled when all that was live still is. -/
theorem settledBetween_eq_nil (h : ∀ k ∈ live, k ∈ live') : settledBetween live live' = [] := by
  rw [settledBetween, filter_eq_nil_iff]
  intro k hk
  simpa using h k hk

/-- **One step.** -/
theorem Sound.step (h : Sound issued settled live) (hnew : (issued ++ new).Nodup)
    (hnodup : live'.Nodup) (hsub : ∀ k ∈ live', k ∈ live ∨ k ∈ new) :
    Sound (issued ++ new) (settled ++ settledBetween live live') live' where
  issued_nodup := hnew
  settled_nodup := by
    refine nodup_append'.mpr ⟨h.settled_nodup, h.live_nodup.filter _, fun k hk hk' => ?_⟩
    exact h.settled_gone k hk (mem_settledBetween.mp hk').1
  live_nodup := hnodup
  live_issued k hk := by
    rcases hsub k hk with hold | hissued
    · exact mem_append_left _ (h.live_issued k hold)
    · exact mem_append_right _ hissued
  settled_issued k hk := by
    rcases mem_append.mp hk with hold | hnow
    · exact mem_append_left _ (h.settled_issued k hold)
    · exact mem_append_left _ (h.live_issued k (mem_settledBetween.mp hnow).1)
  settled_gone k hk hlive := by
    rcases mem_append.mp hk with hold | hnow
    · -- what was settled before is neither live nor new
      rcases hsub k hlive with hwas | hissued
      · exact h.settled_gone k hold hwas
      · exact (nodup_append'.mp hnew).2.2 (h.settled_issued k hold) hissued
    · exact (mem_settledBetween.mp hnow).2 hlive

end Sisyphus.Tickets
