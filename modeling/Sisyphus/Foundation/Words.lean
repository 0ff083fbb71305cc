import Mathlib.Data.Nat.Bitwise
import Mathlib.Data.UInt
import Mathlib.Tactic

/-!
# Machine words as records of bit fields

A page-table entry packs an address and some flags into one word, and an address is cut into
table indices.  For the first, `Field m a` says that `a` has no bits outside the mask `m`, and the
lemmas take a word that was put together from fields of disjoint masks apart again.  For the
second, `digits b n x` are the last `n` digits of `x` in base `b`, most significant first.

`alignUp` and `alignDown` round a word to a power of two, `checkedSucc` counts without wrapping
around, and `pack` puts two halves together.
-/

set_option autoImplicit false

namespace Sisyphus.Words

open Option

/-! ## Bit fields -/

/-- The word `a` has no bits outside `m`. -/
def Field (m a : UInt64) : Prop := a &&& ~~~m = 0

instance (m a : UInt64) : Decidable (Field m a) := inferInstanceAs (Decidable (_ = _))

theorem or_and (a b c : UInt64) : (a ||| b) &&& c = (a &&& c) ||| (b &&& c) :=
  UInt64.toBitVec_inj.mp BitVec.and_or_distrib_right

theorem and_or (a b c : UInt64) : a &&& (b ||| c) = (a &&& b) ||| (a &&& c) :=
  UInt64.toBitVec_inj.mp BitVec.and_or_distrib_left

theorem Field.and_self {m a : UInt64} (h : Field m a) : a &&& m = a := by
  calc a &&& m = (a &&& m) ||| (a &&& ~~~m) := by rw [h, UInt64.or_zero]
    _ = a &&& (m ||| ~~~m) := (and_or ..).symm
    _ = a := by simp

theorem field_iff {m a : UInt64} : Field m a ↔ a &&& m = a := by
  refine ⟨Field.and_self, fun h => ?_⟩
  rw [Field, ← h, UInt64.and_assoc]
  simp

/-- A field has no bits in a disjoint mask. -/
theorem Field.and_eq_zero {m n a : UInt64} (h : Field m a) (hmn : m &&& n = 0) : a &&& n = 0 := by
  rw [← h.and_self, UInt64.and_assoc, hmn, UInt64.and_zero]

theorem Field.or {m a b : UInt64} (ha : Field m a) (hb : Field m b) : Field m (a ||| b) := by
  rw [Field, or_and, ha, hb, UInt64.or_zero]

theorem Field.mono {m n a : UInt64} (h : Field m a) (hmn : Field n m) : Field n a := by
  rw [field_iff, ← h.and_self, UInt64.and_assoc, hmn.and_self]

/-- The part of a packed word in the mask of its first field. -/
theorem Field.or_and_left {m n a b : UInt64} (ha : Field m a) (hb : Field n b)
    (hmn : n &&& m = 0) : (a ||| b) &&& m = a := by
  rw [or_and, ha.and_self, hb.and_eq_zero hmn, UInt64.or_zero]

/-- The part of a packed word in the mask of its second field. -/
theorem Field.or_and_right {m n a b : UInt64} (ha : Field m a) (hb : Field n b)
    (hmn : m &&& n = 0) : (a ||| b) &&& n = b := by
  rw [or_and, hb.and_self, ha.and_eq_zero hmn, UInt64.or_comm, UInt64.or_zero]

/-- Clearing the low bits of a word rounds it down. -/
theorem toNat_and_not {x m : UInt64} {k : Nat} (hm : m.toNat = 2 ^ k - 1) :
    (x &&& ~~~m).toNat = x.toNat / 2 ^ k * 2 ^ k := by
  apply Nat.eq_of_testBit_eq
  intro i
  have hnot : (~~~m).toNat.testBit i = (decide (i < 64) && !decide (i < k)) := by
    rw [← UInt64.toNat_toBitVec, UInt64.toBitVec_not, BitVec.testBit_toNat, BitVec.getLsbD_not,
      ← BitVec.testBit_toNat, UInt64.toNat_toBitVec, hm, Nat.testBit_two_pow_sub_one]
  rw [UInt64.toNat_and, Nat.testBit_and, hnot, Nat.testBit_mul_two_pow, Nat.testBit_div_two_pow]
  by_cases hik : i < k
  · simp [hik]
  · rw [show i - k + k = i by omega]
    by_cases hi : i < 64
    · simp [hik, hi, show k ≤ i by omega]
    · have : x.toNat.testBit i = false :=
        Nat.testBit_lt_two_pow (x.toNat_lt.trans_le (Nat.pow_le_pow_right (by omega) (by omega)))
      simp [this]

/-! ## Rounding -/

/-- `is_power_of_two`. -/
def isPowerOfTwo (x : UInt64) : Bool := x != 0 && x &&& (x - 1) == 0

/-- `value.checked_add(alignment - 1)`, rounded down. -/
def alignUp (value alignment : UInt64) : Option UInt64 :=
  if value.toNat + (alignment - 1).toNat < 2 ^ 64 then
    some ((value + (alignment - 1)) &&& ~~~(alignment - 1))
  else none

def alignDown (value alignment : UInt64) : UInt64 := value &&& ~~~(alignment - 1)

theorem exists_eq_two_pow {x : UInt64} (h : isPowerOfTwo x = true) : ∃ k, x.toNat = 2 ^ k := by
  rw [isPowerOfTwo, Bool.and_eq_true, bne_iff_ne, beq_iff_eq] at h
  have hzero : x.toNat ≠ 0 := fun hx => h.1 (UInt64.toNat_inj.mp hx)
  have hone : (1 : UInt64) ≤ x := UInt64.le_iff_toNat_le.mpr (Nat.one_le_iff_ne_zero.mpr hzero)
  have hand := congrArg UInt64.toNat h.2
  rw [UInt64.toNat_and, UInt64.toNat_sub_of_le _ _ hone] at hand
  exact (Nat.and_sub_one_eq_zero_iff_isPowerOfTwo hzero).mp hand

section Align

variable {value alignment rounded : UInt64} {k : Nat}

section

variable (hk : alignment.toNat = 2 ^ k)
include hk

theorem toNat_sub_one : (alignment - 1).toNat = 2 ^ k - 1 := by
  have hpos : 0 < 2 ^ k := Nat.two_pow_pos k
  have hone : (1 : UInt64).toNat = 1 := rfl
  rw [UInt64.toNat_sub_of_le _ _ (UInt64.le_iff_toNat_le.mpr (by omega)), hk, hone]

theorem toNat_alignDown :
    (alignDown value alignment).toNat = value.toNat / 2 ^ k * 2 ^ k :=
  toNat_and_not (toNat_sub_one hk)

theorem alignUp_eq_some (h : alignUp value alignment = some rounded) :
    value.toNat + (2 ^ k - 1) < 2 ^ 64 ∧
      rounded.toNat = (value.toNat + (2 ^ k - 1)) / 2 ^ k * 2 ^ k := by
  rw [alignUp, toNat_sub_one hk] at h
  split at h
  · next hlt =>
    cases h
    refine ⟨hlt, ?_⟩
    rw [toNat_and_not (toNat_sub_one hk), UInt64.toNat_add, toNat_sub_one hk, Nat.mod_eq_of_lt hlt]
  · cases h

theorem alignUp_eq_none (h : alignUp value alignment = none) :
    2 ^ 64 ≤ value.toNat + (2 ^ k - 1) := by
  rw [alignUp, toNat_sub_one hk] at h
  split at h
  · cases h
  · next hlt => exact Nat.not_lt.mp hlt

/-- The result is a multiple that is not below the word. -/
theorem le_alignUp (h : alignUp value alignment = some rounded) :
    value.toNat ≤ rounded.toNat ∧ 2 ^ k ∣ rounded.toNat := by
  rw [(alignUp_eq_some hk h).2]
  refine ⟨?_, Nat.dvd_mul_left ..⟩
  have hpos : 0 < 2 ^ k := Nat.two_pow_pos k
  have hdiv := Nat.div_add_mod (value.toNat + (2 ^ k - 1)) (2 ^ k)
  rw [Nat.mul_comm]
  omega

/-- The result is the least such multiple, and there is one as long as a word can hold it. -/
theorem exists_alignUp_le {m : Nat} (hdvd : 2 ^ k ∣ m) (hle : value.toNat ≤ m) (hm : m < 2 ^ 64) :
    ∃ rounded, alignUp value alignment = some rounded ∧ rounded.toNat ≤ m := by
  obtain ⟨n, rfl⟩ := hdvd
  have hk64 : 2 ^ k * 2 ^ (64 - k) = 2 ^ 64 := by
    have : k < 64 := (Nat.pow_lt_pow_iff_right (by decide)).mp (hk ▸ alignment.toNat_lt)
    rw [← Nat.pow_add, Nat.add_sub_cancel' this.le]
  have hnext : 2 ^ k * (n + 1) ≤ 2 ^ 64 := by
    have hn : n < 2 ^ (64 - k) := Nat.lt_of_mul_lt_mul_left (hk64 ▸ hm)
    exact hk64 ▸ Nat.mul_le_mul_left _ hn
  have hpos : 0 < 2 ^ k := Nat.two_pow_pos k
  have hlt : value.toNat + (2 ^ k - 1) < 2 ^ k * (n + 1) := by
    rw [Nat.mul_succ]
    omega
  cases hr : alignUp value alignment with
  | none => exact absurd (alignUp_eq_none hk hr) (by omega)
  | some rounded =>
    refine ⟨rounded, rfl, ?_⟩
    rw [(alignUp_eq_some hk hr).2, Nat.mul_comm]
    exact Nat.mul_le_mul_left _ (Nat.le_of_lt_succ (Nat.div_lt_of_lt_mul hlt))

end

end Align

/-! ## Checked arithmetic -/

/-- `checked_add(1)`. -/
def checkedSucc (x : UInt64) : Option UInt64 :=
  if x.toNat + 1 < 2 ^ 64 then some (x + 1) else none

/-- `checked_add`. -/
def checkedAdd (a b : UInt64) : Option UInt64 :=
  if a.toNat + b.toNat < 2 ^ 64 then some (a + b) else none

/-- `checked_mul`. -/
def checkedMul (a b : UInt64) : Option UInt64 :=
  if a.toNat * b.toNat < 2 ^ 64 then some (a * b) else none

/-- `saturating_add`. -/
def saturatingAdd (a b : UInt64) : UInt64 := (checkedAdd a b).getD 0xffffffffffffffff

/-- `saturating_mul`. -/
def saturatingMul (a b : UInt64) : UInt64 := (checkedMul a b).getD 0xffffffffffffffff

/-- `saturating_sub`. -/
def saturatingSub (a b : UInt64) : UInt64 := if b ≤ a then a - b else 0

/-- A checked result is the exact one. -/
theorem fits_eq_some {n : Nat} {word c : UInt64} (hword : word.toNat = n % 2 ^ 64) :
    (if n < 2 ^ 64 then some word else none) = some c ↔ n = c.toNat := by
  have hc := c.toNat_lt
  split
  · next hlt => rw [some.injEq, ← UInt64.toNat_inj, hword, Nat.mod_eq_of_lt hlt]
  · next hge =>
    simp only [reduceCtorEq, false_iff]
    omega

theorem toNat_checkedSucc {x y : UInt64} (h : checkedSucc x = some y) : y.toNat = x.toNat + 1 :=
  ((fits_eq_some (UInt64.toNat_add x 1)).mp h).symm

theorem checkedAdd_eq_some {a b c : UInt64} :
    checkedAdd a b = some c ↔ a.toNat + b.toNat = c.toNat := fits_eq_some (UInt64.toNat_add a b)

theorem checkedMul_eq_some {a b c : UInt64} :
    checkedMul a b = some c ↔ a.toNat * b.toNat = c.toNat := fits_eq_some (UInt64.toNat_mul a b)

/-- A checked result, or the greatest value: the exact result, cut off there. -/
theorem toNat_getD_max {o : Option UInt64} {n : Nat} (hsome : ∀ c, o = some c → n = c.toNat)
    (hnone : o = none → 2 ^ 64 ≤ n) :
    (o.getD 0xffffffffffffffff).toNat = min n (2 ^ 64 - 1) := by
  cases o with
  | some c =>
    have := c.toNat_lt
    have := hsome c rfl
    simp only [getD_some]
    omega
  | none =>
    have := hnone rfl
    simp only [getD_none, UInt64.reduceToNat]
    omega

theorem toNat_saturatingAdd (a b : UInt64) :
    (saturatingAdd a b).toNat = min (a.toNat + b.toNat) (2 ^ 64 - 1) :=
  toNat_getD_max (fun _ => checkedAdd_eq_some.mp) fun h => by simpa [checkedAdd] using h

theorem saturatingAdd_zero (a : UInt64) : saturatingAdd a 0 = a := by
  have hlt := a.toNat_lt
  apply UInt64.toNat_inj.mp
  rw [toNat_saturatingAdd, UInt64.toNat_zero]
  omega

theorem toNat_saturatingMul (a b : UInt64) :
    (saturatingMul a b).toNat = min (a.toNat * b.toNat) (2 ^ 64 - 1) :=
  toNat_getD_max (fun _ => checkedMul_eq_some.mp) fun h => by simpa [checkedMul] using h

theorem toNat_saturatingSub (a b : UInt64) : (saturatingSub a b).toNat = a.toNat - b.toNat := by
  rw [saturatingSub]
  split
  · next h => exact UInt64.toNat_sub_of_le a b h
  · next h =>
    rw [UInt64.le_iff_toNat_le] at h
    simp only [UInt64.toNat_zero]
    omega

/-- `u32::saturating_add`. -/
def saturatingAdd32 (a b : UInt32) : UInt32 :=
  if a.toNat + b.toNat < 2 ^ 32 then a + b else 0xffffffff

/-- `u32::saturating_sub`. -/
def saturatingSub32 (a b : UInt32) : UInt32 := if b ≤ a then a - b else 0

theorem toNat_saturatingAdd32 (a b : UInt32) :
    (saturatingAdd32 a b).toNat = min (a.toNat + b.toNat) (2 ^ 32 - 1) := by
  rw [saturatingAdd32]
  split
  · rw [UInt32.toNat_add]
    omega
  · show 2 ^ 32 - 1 = _
    omega

theorem toNat_saturatingSub32 (a b : UInt32) : (saturatingSub32 a b).toNat = a.toNat - b.toNat := by
  rw [saturatingSub32]
  split
  · next h => exact UInt32.toNat_sub_of_le a b h
  · next h =>
    rw [UInt32.le_iff_toNat_le] at h
    rw [UInt32.toNat_zero]
    omega

/-- `rotate_left` by at least one bit and fewer than 64. -/
def rotateLeft (x k : UInt64) : UInt64 := x <<< k ||| x >>> (64 - k)

/-- `wrapping_add(1).max(1)`: after the greatest word comes one, so that zero is left out. -/
def wrappingSucc (a : UInt64) : UInt64 := max (a + 1) 1

theorem toNat_wrappingSucc (a : UInt64) :
    (wrappingSucc a).toNat = max ((a.toNat + 1) % 2 ^ 64) 1 := by
  have hsucc : (a + 1).toNat = (a.toNat + 1) % 2 ^ 64 := UInt64.toNat_add a 1
  have hmax : wrappingSucc a = if a + 1 ≤ 1 then 1 else a + 1 := rfl
  rw [hmax]
  split <;> rename_i hle <;> rw [UInt64.le_iff_toNat_le, UInt64.toNat_one] at hle
  · rw [UInt64.toNat_one]
    omega
  · omega

theorem toNat_add_one_of_lt {a : UInt64} (h : a.toNat + 1 < 2 ^ 64) :
    (a + 1).toNat = a.toNat + 1 := Nat.mod_eq_of_lt h

/-- The shifted copies satisfy the same equation, and they are smaller. -/
theorem eq_of_xor_shiftRight {k n m : Nat} (hk : 0 < k) (h : n ^^^ n >>> k = m ^^^ m >>> k) :
    n = m := by
  have hsmaller {x : Nat} (hx : 0 < x) : x >>> k < x := by
    rw [Nat.shiftRight_eq_div_pow]
    exact Nat.div_lt_self hx (Nat.one_lt_two_pow hk.ne')
  induction n using Nat.strong_induction_on generalizing m with
  | _ n ih =>
    obtain rfl | hn := n.eq_zero_or_pos
    · obtain rfl | hm := m.eq_zero_or_pos
      · rfl
      · rw [Nat.zero_shiftRight, Nat.xor_self] at h
        exact absurd (Nat.eq_of_xor_eq_zero h.symm) (hsmaller hm).ne'
    · have hcopies : n >>> k = m >>> k := by
        refine ih _ (hsmaller hn) ?_
        rw [← Nat.shiftRight_xor_distrib, ← Nat.shiftRight_xor_distrib, h]
      rw [hcopies] at h
      exact Nat.xor_left_inj.mp h

theorem xor_shiftRight_injective {k : UInt64} (hk : 0 < k.toNat % 64) :
    Function.Injective fun x : UInt64 => x ^^^ x >>> k := fun x y h => by
  rw [← UInt64.toNat_inj]
  refine eq_of_xor_shiftRight hk ?_
  simpa using congrArg UInt64.toNat h

/-- The round of the splitmix generator, keyed by a word. -/
def splitMix (state word : UInt64) : UInt64 :=
  let state := state ^^^ (word * 0x9e3779b97f4a7c15)
  let state := state ^^^ (state >>> 30)
  let state := state * 0xbf58476d1ce4e5b9
  let state := state ^^^ (state >>> 27)
  let state := state * 0x94d049bb133111eb
  state ^^^ (state >>> 31)

/-! ## Halves -/

/-- The word with these two halves. -/
def pack (high : UInt32) (low : UInt64) : UInt64 := high.toUInt64 <<< 32 ||| low

-- The halves are compared bit by bit.
theorem toUInt32_pack (high low : UInt32) : (pack high low.toUInt64).toUInt32 = low := by
  refine UInt32.toBitVec_inj.1 (BitVec.eq_of_getElem_eq fun i hi => ?_)
  simp [pack]

theorem pack_shiftRight (high low : UInt32) : (pack high low.toUInt64 >>> 32).toUInt32 = high := by
  refine UInt32.toBitVec_inj.1 (BitVec.eq_of_getElem_eq fun i hi => ?_)
  simp [pack]
  grind

theorem pack_halves (word : UInt64) :
    pack (word >>> 32).toUInt32 word.toUInt32.toUInt64 = word := by
  refine UInt64.toBitVec_inj.1 (BitVec.eq_of_getElem_eq fun i hi => ?_)
  simp [pack, -UInt64.toUInt64_toUInt32]
  grind

/-! ## Digits -/

/-- A table of one page has 512 entries of eight bytes; its index is a digit in this base. -/
instance neZeroPageEntries : NeZero 512 := ⟨by decide⟩

/-- The last `n` digits of `x` in base `b`, most significant first. -/
def digits (b : Nat) : Nat → Nat → List Nat
  | 0, _ => []
  | n + 1, x => x / b ^ n % b :: digits b n x

@[simp] theorem length_digits (b n x : Nat) : (digits b n x).length = n := by
  induction n with
  | zero => rfl
  | succ n ih => simp [digits, ih]

theorem getElem?_digits {b n x p : Nat} (h : p < n) :
    (digits b n x)[p]? = some (x / b ^ (n - 1 - p) % b) := by
  induction n generalizing p with
  | zero => omega
  | succ n ih =>
    cases p with
    | zero => simp [digits]
    | succ p =>
      rw [digits, List.getElem?_cons_succ, ih (by omega)]
      congr 4
      omega

/-- The digits determine the number they are the last digits of. -/
theorem digits_inj {b n x y : Nat} (h : digits b n x = digits b n y) : x % b ^ n = y % b ^ n := by
  induction n with
  | zero => simp [Nat.mod_one]
  | succ n ih =>
    rw [digits, digits, List.cons.injEq] at h
    rw [Nat.mod_pow_succ, Nat.mod_pow_succ, h.1, ih h.2]

end Sisyphus.Words
