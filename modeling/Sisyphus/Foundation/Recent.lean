import Mathlib.Data.UInt
import Mathlib.Tactic

/-!
# Remembering the last few

A ring of `n` slots and a cursor that goes round: each value is written where the cursor stands,
over the value that was written `n` writes ago.  `Keeps slots past` says that the slots are what
has become of the values `past`, oldest first, and `recent n past` are the last `n` of them.
What is in the ring is then what was recent (`Keeps.exists_iff`), and one more write keeps it so
(`Keeps.push`).
-/

set_option autoImplicit false

namespace Sisyphus.Recent

open Function List

variable {α : Type} {n : Nat}

/-- The last `n` of a list. -/
def recent (n : Nat) (past : List α) : List α := past.drop (past.length - n)

theorem mem_recent {past : List α} {a : α} :
    a ∈ recent n past ↔ ∃ i, past[i]? = some a ∧ past.length ≤ i + n := by
  rw [recent, mem_iff_getElem?]
  constructor
  · rintro ⟨k, hk⟩
    rw [getElem?_drop] at hk
    exact ⟨_, hk, by omega⟩
  · rintro ⟨i, hi, hrecent⟩
    refine ⟨i - (past.length - n), ?_⟩
    rw [getElem?_drop, show past.length - n + (i - (past.length - n)) = i by omega, hi]

/-- The slots hold the last values of `past`, each where the cursor stood when it came. -/
structure Keeps (slots : Fin n → Option α) (past : List α) : Prop where
  held : ∀ (i : Nat) (a : α) (j : Fin n), past[i]? = some a → past.length ≤ i + n →
    j.val = i % n → slots j = some a
  only : ∀ (j : Fin n) (a : α), slots j = some a →
    ∃ i, past[i]? = some a ∧ past.length ≤ i + n ∧ j.val = i % n

theorem keeps_nil : Keeps (fun _ : Fin n => (none : Option α)) [] := by
  constructor
  · intro i a j h
    cases h
  · intro j a h
    cases h

variable {slots : Fin n → Option α} {past : List α}

theorem Keeps.exists_iff (h : Keeps slots past) {a : α} :
    (∃ j, slots j = some a) ↔ a ∈ recent n past := by
  rw [mem_recent]
  constructor
  · rintro ⟨j, hj⟩
    obtain ⟨i, hi, hrecent, -⟩ := h.only j a hj
    exact ⟨i, hi, hrecent⟩
  · rintro ⟨i, hi, hrecent⟩
    have hlt : i < past.length := (List.getElem?_eq_some_iff.mp hi).1
    have hpos : 0 < n := by omega
    exact ⟨⟨i % n, Nat.mod_lt i hpos⟩, h.held i a _ hi hrecent rfl⟩

/-- Two writes fewer than `n` apart go to different slots. -/
theorem mod_ne_mod {i k : Nat} (hlt : i < k) (hclose : k < i + n) : i % n ≠ k % n := by
  intro h
  have hdvd : n ∣ k - i := (Nat.modEq_iff_dvd' hlt.le).mp h
  have := Nat.le_of_dvd (by omega) hdvd
  omega

/-- **One more write.** -/
theorem Keeps.push (h : Keeps slots past) {j : Fin n} (hj : j.val = past.length % n) (a : α) :
    Keeps (update slots j (some a)) (past ++ [a]) := by
  have hlen : (past ++ [a]).length = past.length + 1 := length_append
  constructor
  · intro i b k hi hrecent hk
    have hlt : i < past.length + 1 := hlen ▸ (List.getElem?_eq_some_iff.mp hi).1
    rcases Nat.lt_succ_iff_lt_or_eq.mp hlt with hold | rfl
    · rw [List.getElem?_append_left hold] at hi
      have hne : k ≠ j := by
        rintro rfl
        exact mod_ne_mod hold (by omega) (hk.symm.trans hj)
      rw [update_of_ne hne]
      exact h.held i b k hi (by omega) hk
    · rw [getElem?_concat_length] at hi
      have hkj : k = j := Fin.ext (hk.trans hj.symm)
      rw [hkj, update_self, hi]
  · intro k b hk
    by_cases hkj : k = j
    · subst hkj
      rw [update_self] at hk
      exact ⟨past.length, by rw [getElem?_concat_length, hk], by omega, hj⟩
    · rw [update_of_ne hkj] at hk
      obtain ⟨i, hi, hrecent, hki⟩ := h.only k b hk
      have hlt : i < past.length := (List.getElem?_eq_some_iff.mp hi).1
      refine ⟨i, by rw [List.getElem?_append_left hlt, hi], ?_, hki⟩
      -- the value written exactly `n` writes ago would be in the cursor's slot
      have hne : past.length ≠ i + n := by
        intro heq
        refine hkj (Fin.ext ?_)
        rw [hki, hj, heq, Nat.add_mod_right]
      omega

end Sisyphus.Recent
