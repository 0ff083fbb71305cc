import Mathlib.Data.UInt
import Mathlib.Tactic

/-!
# Rings with a cycle bit

A ring of `N` cells between a producer and a consumer.  Each cell has one bit, and the producer
writes it as the parity of its lap, so that the consumer can tell a cell of this lap from what the
last lap has left there.  Producer and consumer count the cells that they have gone through, and
`lapCycle` is the parity that goes with a count.  `cellCycle N p i` is the bit of cell `i` after
`p` cells have been produced, and `cellCycle_eq_lapCycle_iff` is the point of it all: the consumer
finds its own parity in the next cell just when that cell has been produced.
-/

set_option autoImplicit false

namespace Sisyphus.CycleRing

/-- The parity of the lap in which cell number `n` is produced. -/
def lapCycle (N n : Nat) : Bool := n / N % 2 == 0

def cellCycle (N p i : Nat) : Bool := if i < p % N then lapCycle N p else !lapCycle N p

variable {N p c i a r : Nat}

theorem parity_succ (a : Nat) : ((a + 1) % 2 == 0) = !(a % 2 == 0) := by
  rcases Nat.mod_two_eq_zero_or_one a with h | h <;> simp [Nat.add_mod, h]

/-- The parity of the next lap. -/
theorem lapCycle_add_self (hN : 0 < N) (p : Nat) : lapCycle N (p + N) = !lapCycle N p := by
  rw [lapCycle, lapCycle, Nat.add_div_right p hN, parity_succ]

theorem succ_mod (hN : 0 < N) (p : Nat) :
    p % N + 1 < N ∧ (p + 1) % N = p % N + 1 ∨ p % N + 1 = N ∧ (p + 1) % N = 0 := by
  have hlt := Nat.mod_lt p hN
  rw [← Nat.mod_add_mod]
  rcases Nat.lt_or_ge (p % N + 1) N with h | h
  · exact .inl ⟨h, Nat.mod_eq_of_lt h⟩
  · have hlast : p % N + 1 = N := by omega
    exact .inr ⟨hlast, by rw [hlast, Nat.mod_self]⟩

theorem lapCycle_succ_of_mod (h : (p + 1) % N ≠ 0) : lapCycle N (p + 1) = lapCycle N p := by
  rw [lapCycle, lapCycle, Nat.succ_div_of_not_dvd fun hd => h (Nat.mod_eq_zero_of_dvd hd)]

theorem lapCycle_succ_of_wrap (h : (p + 1) % N = 0) : lapCycle N (p + 1) = !lapCycle N p := by
  rw [lapCycle, lapCycle, Nat.succ_div_of_dvd (Nat.dvd_of_mod_eq_zero h), parity_succ]

/-- The producer's next cell has the bit of the last lap, and gets that of this lap. -/
theorem cellCycle_self (N p : Nat) : cellCycle N p (p % N) = !lapCycle N p := by
  rw [cellCycle, if_neg (Nat.lt_irrefl _)]

theorem cellCycle_succ (hi : i < N) :
    cellCycle N (p + 1) i = if i = p % N then lapCycle N p else cellCycle N p i := by
  have hN : 0 < N := by omega
  rcases succ_mod hN p with ⟨hlt, hsucc⟩ | ⟨hlast, hwrap⟩
  · rw [cellCycle, cellCycle, hsucc, lapCycle_succ_of_mod (by omega)]
    by_cases hie : i = p % N
    · rw [if_pos (by omega), if_pos hie]
    · rw [if_neg hie]
      by_cases hlt : i < p % N
      · rw [if_pos (by omega), if_pos hlt]
      · rw [if_neg (by omega), if_neg hlt]
  · rw [cellCycle, cellCycle, hwrap, lapCycle_succ_of_wrap hwrap, if_neg (by omega), Bool.not_not]
    by_cases hie : i = p % N
    · rw [if_pos hie]
    · rw [if_neg hie, if_pos (by omega)]

/-- **The consumer's next cell carries its parity just when it has been produced.** -/
theorem cellCycle_eq_lapCycle_iff (hN : 0 < N) (hc : c ≤ p) (hp : p ≤ c + N) :
    cellCycle N p (c % N) = lapCycle N c ↔ c < p := by
  have hr := Nat.mod_lt c hN
  have hlap := Nat.div_add_mod c N
  have hlap' := Nat.div_add_mod p N
  have hle : c / N ≤ p / N := Nat.div_le_div_right hc
  have hge : p / N ≤ c / N + 1 := by
    rw [← Nat.add_div_right c hN]
    exact Nat.div_le_div_right hp
  rcases Nat.lt_or_ge (c / N) (p / N) with hlt | hge'
  · have hnext : p / N = c / N + 1 := by omega
    rw [hnext, Nat.mul_add, Nat.mul_one] at hlap'
    rw [cellCycle, if_neg (by omega), lapCycle, lapCycle, hnext, parity_succ, Bool.not_not]
    exact ⟨fun _ => by omega, fun _ => rfl⟩
  · have hsame : p / N = c / N := by omega
    rw [hsame] at hlap'
    rw [cellCycle, show lapCycle N p = lapCycle N c by rw [lapCycle, lapCycle, hsame]]
    by_cases hlt : c % N < p % N
    · rw [if_pos hlt]
      exact ⟨fun _ => by omega, fun _ => rfl⟩
    · rw [if_neg hlt]
      refine ⟨fun h => absurd h (by simp), fun h => by omega⟩

end Sisyphus.CycleRing
