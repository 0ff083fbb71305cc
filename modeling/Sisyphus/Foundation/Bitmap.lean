import Mathlib.Data.UInt
import Mathlib.Tactic

/-!
# Bitmaps packed into words

A bitmap is a list of 64-bit words, bit `b` being bit `b % 64` of word `b / 64`.  `bitIsSet` and
`setBit` are what the code does with shifts and masks.  After `bitIsSet_setBit` nothing looks at a
word again: a bitmap is a function that is updated at one place.  `clear` collects the bits of an
initial part that are not set, for counters that are kept beside a bitmap.
-/

set_option autoImplicit false

namespace Sisyphus.Bitmap

open Finset List

/-! ## One word -/

/-- The word with only bit `k`. -/
def mask (k : Nat) : UInt64 := 1 <<< k.toUInt64

theorem toBitVec_mask {k : Nat} (hk : k < 64) : (mask k).toBitVec = BitVec.twoPow 64 k := by
  apply BitVec.eq_of_toNat_eq
  rw [UInt64.toNat_toBitVec, mask, UInt64.toNat_shiftLeft, BitVec.toNat_twoPow]
  rw [show UInt64.toNat 1 = 1 from rfl, show k.toUInt64.toNat % 64 = k from by
    show k % 2 ^ 64 % 64 = k
    omega, Nat.one_shiftLeft]

theorem and_mask_bne_zero (w : UInt64) {k : Nat} (hk : k < 64) :
    (w &&& mask k != 0) = w.toBitVec.getLsbD k := by
  have h : (w &&& mask k).toBitVec = if w.toBitVec.getLsbD k then BitVec.twoPow 64 k else 0#64 := by
    rw [UInt64.toBitVec_and, toBitVec_mask hk, BitVec.and_twoPow]
  cases hbit : w.toBitVec.getLsbD k with
  | true =>
    rw [bne_iff_ne]
    intro h0
    rw [h0, hbit, if_pos rfl] at h
    have := congrArg BitVec.toNat h
    rw [BitVec.toNat_twoPow, Nat.mod_eq_of_lt (Nat.pow_lt_pow_right (by omega) hk)] at this
    exact absurd this.symm (Nat.pow_pos (by omega)).ne'
  | false =>
    rw [hbit] at h
    simp only [bne_eq_false_iff_eq]
    exact UInt64.toBitVec_inj.mp h

/-- Setting or clearing one bit of a word. -/
theorem getLsbD_set_mask (w : UInt64) {j k : Nat} (hj : j < 64) (hk : k < 64) (value : Bool) :
    (if value then w ||| mask k else w &&& ~~~mask k).toBitVec.getLsbD j =
      if j = k then value else w.toBitVec.getLsbD j := by
  have hbit : (mask k).toBitVec.getLsbD j = decide (j = k) := by
    rw [toBitVec_mask hk, BitVec.getLsbD_twoPow]
    simp [hk, eq_comm]
  cases value with
  | true =>
    rw [if_pos rfl, UInt64.toBitVec_or, BitVec.getLsbD_or, hbit]
    by_cases hjk : j = k <;> simp [hjk]
  | false =>
    rw [if_neg (by decide), UInt64.toBitVec_and, UInt64.toBitVec_not, BitVec.getLsbD_and,
      BitVec.getLsbD_not, hbit]
    by_cases hjk : j = k <;> simp [hjk, hj]

/-! ## Lists of words -/

def wordBits : Nat := 64

def bitIsSet (bitmap : List UInt64) (bit : Nat) : Bool :=
  bitmap.getD (bit / wordBits) 0 &&& mask (bit % wordBits) != 0

def setBit (bitmap : List UInt64) (bit : Nat) (value : Bool) : List UInt64 :=
  bitmap.modify (bit / wordBits) fun word =>
    if value then word ||| mask (bit % wordBits) else word &&& ~~~mask (bit % wordBits)

/-- How many words hold so many bits. -/
def wordsFor (bits : Nat) : Nat := (bits + 63) / 64

theorem div_lt_wordsFor {bit bits : Nat} (h : bit < bits) : bit / wordBits < wordsFor bits := by
  rw [wordsFor, wordBits]
  omega

@[simp] theorem length_setBit (bitmap : List UInt64) (bit : Nat) (value : Bool) :
    (setBit bitmap bit value).length = bitmap.length := length_modify ..

variable {bitmap : List UInt64}

/-- **Setting a bit changes that bit and no other.** -/
theorem bitIsSet_setBit {bit : Nat} (h : bit / wordBits < bitmap.length) (value : Bool) (j : Nat) :
    bitIsSet (setBit bitmap bit value) j = if j = bit then value else bitIsSet bitmap j := by
  have hmod : ∀ n, n % wordBits < 64 := fun n => Nat.mod_lt n (by decide)
  rw [bitIsSet, bitIsSet, and_mask_bne_zero _ (hmod j), and_mask_bne_zero _ (hmod j)]
  by_cases hword : j / wordBits = bit / wordBits
  · have hget : (setBit bitmap bit value).getD (j / wordBits) 0 =
        if value then bitmap.getD (j / wordBits) 0 ||| mask (bit % wordBits)
        else bitmap.getD (j / wordBits) 0 &&& ~~~mask (bit % wordBits) := by
      rw [hword]
      simp only [setBit, getD_eq_getElem?_getD, getElem?_modify_eq,
        getElem?_eq_getElem h, Option.map_eq_map, Option.map_some, Option.getD_some]
    have hsame : j % wordBits = bit % wordBits ↔ j = bit := by
      have hj := Nat.div_add_mod j wordBits
      have hb := Nat.div_add_mod bit wordBits
      rw [hword] at hj
      constructor
      · intro he
        rw [← hj, he, hb]
      · rintro rfl
        rfl
    rw [hget, getLsbD_set_mask _ (hmod j) (hmod bit)]
    simp only [hsame]
  · have hj : j ≠ bit := fun he => hword (he ▸ rfl)
    rw [if_neg hj]
    simp only [setBit, getD_eq_getElem?_getD, getElem?_modify_ne _ _ (Ne.symm hword)]

/-- Every bit is set in a bitmap of full words. -/
theorem bitIsSet_replicate {words bit : Nat} (h : bit / wordBits < words) :
    bitIsSet (replicate words 0xffffffffffffffff) bit = true := by
  have hbit : bit % wordBits < 64 := Nat.mod_lt bit (by decide)
  rw [bitIsSet, and_mask_bne_zero _ hbit, getD_eq_getElem?_getD, getElem?_replicate_of_lt h]
  have hall : (0xffffffffffffffff : UInt64).toBitVec = BitVec.allOnes 64 := by decide
  rw [Option.getD_some, hall, BitVec.getLsbD_allOnes]
  simpa using hbit

/-! ## The bits that are not set -/

/-- The bits below `n` that are not set. -/
def clear (bitmap : List UInt64) (n : Nat) : Finset Nat :=
  (Finset.range n).filter fun bit => bitIsSet bitmap bit = false

theorem mem_clear {n bit : Nat} :
    bit ∈ clear bitmap n ↔ bit < n ∧ bitIsSet bitmap bit = false := by
  simp [clear]

variable {bitmap : List UInt64} {n bit : Nat}

theorem clear_setBit_true (h : bit / wordBits < bitmap.length) :
    clear (setBit bitmap bit true) n = (clear bitmap n).erase bit := by
  ext j
  rw [mem_erase, mem_clear, mem_clear, bitIsSet_setBit h]
  by_cases hj : j = bit
  · simp [hj]
  · simp [hj]

theorem clear_setBit_false (h : bit / wordBits < bitmap.length) (hn : bit < n) :
    clear (setBit bitmap bit false) n = insert bit (clear bitmap n) := by
  ext j
  rw [mem_insert, mem_clear, mem_clear, bitIsSet_setBit h]
  by_cases hj : j = bit
  · simp [hj, hn]
  · simp [hj]

/-! ## Setting several bits -/

/-- Sets all bits of a list to one value. -/
def setBits (bitmap : List UInt64) (bits : List Nat) (value : Bool) : List UInt64 :=
  bits.foldl (fun bitmap bit => setBit bitmap bit value) bitmap

@[simp] theorem length_setBits (bitmap : List UInt64) (bits : List Nat) (value : Bool) :
    (setBits bitmap bits value).length = bitmap.length := by
  induction bits generalizing bitmap with
  | nil => rfl
  | cons bit rest ih => exact (ih _).trans (length_setBit ..)

variable {bits : List Nat} (h : ∀ bit ∈ bits, bit / wordBits < bitmap.length)
include h

theorem bitIsSet_setBits (value : Bool) (j : Nat) :
    bitIsSet (setBits bitmap bits value) j = if j ∈ bits then value else bitIsSet bitmap j := by
  induction bits generalizing bitmap with
  | nil => simp [setBits]
  | cons bit rest ih =>
    have hrest : ∀ b ∈ rest, b / wordBits < (setBit bitmap bit value).length := by
      intro b hb
      rw [length_setBit]
      exact h b (mem_cons_of_mem _ hb)
    refine (ih hrest).trans ?_
    rw [bitIsSet_setBit (h bit (mem_cons_self ..))]
    by_cases hj : j = bit
    · simp [hj]
    · simp [hj]

theorem clear_setBits_true :
    clear (setBits bitmap bits true) n = clear bitmap n \ bits.toFinset := by
  ext j
  rw [mem_sdiff, mem_clear, mem_clear, bitIsSet_setBits h, mem_toFinset]
  by_cases hj : j ∈ bits
  · simp [hj]
  · simp [hj]

theorem clear_setBits_false (hn : ∀ bit ∈ bits, bit < n) :
    clear (setBits bitmap bits false) n = clear bitmap n ∪ bits.toFinset := by
  ext j
  rw [mem_union, mem_clear, mem_clear, bitIsSet_setBits h, mem_toFinset]
  by_cases hj : j ∈ bits
  · simp [hj, hn j hj]
  · simp [hj]

/-- So many fewer are clear once clear bits have been set. -/
theorem card_clear_setBits_true (hnodup : bits.Nodup)
    (hclear : ∀ bit ∈ bits, bit ∈ clear bitmap n) :
    (clear (setBits bitmap bits true) n).card + bits.length = (clear bitmap n).card := by
  have hsub : bits.toFinset ⊆ clear bitmap n := fun b hb => hclear b (mem_toFinset.mp hb)
  rw [clear_setBits_true h, ← toFinset_card_of_nodup hnodup, card_sdiff_add_card_eq_card hsub]

/-- So many more are clear once set bits have been cleared. -/
theorem card_clear_setBits_false (hnodup : bits.Nodup) (hn : ∀ bit ∈ bits, bit < n)
    (hset : ∀ bit ∈ bits, bitIsSet bitmap bit = true) :
    (clear (setBits bitmap bits false) n).card = (clear bitmap n).card + bits.length := by
  have hdisjoint : Disjoint (clear bitmap n) bits.toFinset := by
    rw [Finset.disjoint_left]
    intro b hb hbits
    have := hset b (mem_toFinset.mp hbits)
    rw [(mem_clear.mp hb).2] at this
    cases this
  rw [clear_setBits_false h hn, card_union_of_disjoint hdisjoint, toFinset_card_of_nodup hnodup]

end Sisyphus.Bitmap
