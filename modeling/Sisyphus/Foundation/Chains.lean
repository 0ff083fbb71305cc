import Mathlib.Data.Fintype.Card
import Mathlib.Tactic

/-!
# Following a partial function

`follow next n a` takes `n` steps of a partial function from `a`.  A point settles when the steps
run out; the number of steps it takes is its `rank`.  The points on the way are all different, so
over a finite type the rank is at most its size (`rank_le_of_injective`).
-/

set_option autoImplicit false

namespace Sisyphus.Chains

open Option

variable {α : Type} {next : α → Option α} {a b : α}

/-- `n` steps from `a`, as long as there are any. -/
def follow (next : α → Option α) : Nat → α → Option α
  | 0, a => some a
  | n + 1, a => (next a).bind (follow next n)

theorem follow_succ_of_some (h : next a = some b) (n : Nat) :
    follow next (n + 1) a = follow next n b := by
  rw [follow, h, bind_some]

theorem follow_add (m n : Nat) (a : α) :
    follow next (m + n) a = (follow next m a).bind (follow next n) := by
  induction m generalizing a with
  | zero => rw [Nat.zero_add, follow, bind_some]
  | succ m ih =>
    rw [Nat.add_right_comm, follow, follow, bind_assoc]
    exact congrArg (bind (next a)) (funext ih)

def Settles (next : α → Option α) (a : α) : Prop := ∃ n, follow next n a = none

theorem settles_iff_of_some (h : next a = some b) : Settles next a ↔ Settles next b := by
  constructor
  · rintro ⟨n, hn⟩
    cases n with
    | zero => exact absurd hn (by simp [follow])
    | succ n => exact ⟨n, by rwa [follow_succ_of_some h] at hn⟩
  · rintro ⟨n, hn⟩
    exact ⟨n + 1, by rwa [follow_succ_of_some h]⟩

theorem settles_of_none (h : next a = none) : Settles next a :=
    ⟨1, by rw [follow, h, bind_none]⟩

theorem not_settles_of_self (h : next a = some a) : ¬ Settles next a := by
  rintro ⟨n, hn⟩
  induction n with
  | zero => exact absurd hn (by simp [follow])
  | succ n ih => exact ih (by rwa [follow_succ_of_some h] at hn)

section Rank

open Classical in
/-- The number of steps after which `a` has settled, or zero if it does not. -/
noncomputable def rank (next : α → Option α) (a : α) : Nat :=
  if h : Settles next a then Nat.find h else 0

theorem follow_rank (h : Settles next a) : follow next (rank next a) a = none := by
  rw [rank, dif_pos h]
  exact Nat.find_spec h

theorem rank_le {n : Nat} (h : follow next n a = none) : rank next a ≤ n := by
  have hsettles : Settles next a := ⟨n, h⟩
  rw [rank, dif_pos hsettles]
  exact Nat.find_min' hsettles h

theorem rank_pos (h : Settles next a) : 0 < rank next a := by
  refine Nat.pos_of_ne_zero fun hzero => ?_
  have := follow_rank h
  rw [hzero] at this
  exact absurd this (by simp [follow])

/-- A step brings a point nearer to its end. -/
theorem rank_lt_of_some (h : next a = some b) (hsettles : Settles next a) :
    rank next b < rank next a := by
  have hpos := rank_pos hsettles
  have hrank := follow_rank hsettles
  rw [← Nat.sub_add_cancel hpos, follow_succ_of_some h] at hrank
  have := rank_le hrank
  omega

/-- The points on the way to the end are all different, so there are no more of them than of
numbers that tell them apart. -/
theorem rank_le_of_injective {n : Nat} {number : α → Fin n} (hnumber : Function.Injective number)
    (h : Settles next a) : rank next a ≤ n := by
  have hsome : ∀ k : Fin (rank next a), ∃ b, follow next k a = some b := by
    intro k
    refine ne_none_iff_exists'.mp fun hnone => ?_
    exact absurd (rank_le hnone) (Nat.not_le.mpr k.isLt)
  choose visited hvisited using hsome
  have hnot : ∀ i j : Fin (rank next a), i < j → visited i ≠ visited j := by
    intro i j hij heq
    have hrest : follow next (rank next a - j) (visited j) = none := by
      have := follow_rank h
      rw [← Nat.add_sub_cancel' j.isLt.le, follow_add, hvisited j, bind_some] at this
      exact this
    have hshort : follow next (i + (rank next a - j)) a = none := by
      rw [follow_add, hvisited i, bind_some, heq, hrest]
    have := rank_le hshort
    omega
  have hinj : Function.Injective visited := by
    intro i j heq
    by_contra hne
    rcases lt_or_gt_of_ne hne with hlt | hlt
    · exact hnot i j hlt heq
    · exact hnot j i hlt heq.symm
  simpa using Fintype.card_le_of_injective (number ∘ visited) (hnumber.comp hinj)

end Rank

end Sisyphus.Chains
