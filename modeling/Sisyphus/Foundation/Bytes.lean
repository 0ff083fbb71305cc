import Mathlib.Data.UInt
import Mathlib.Tactic

/-!
# Bytes in memory

Little-endian numbers, and memory as a function from offsets to bytes.  `slice` reads a range and
`patch` writes one, byte by byte.  The lemmas say that a range reads back as it was written and that
nothing else changes.
-/

set_option autoImplicit false

namespace Sisyphus.Bytes

open Function List

/-! ## Little-endian numbers -/

/-- The last `n` bytes of a number, lowest first. -/
def leBytes : Nat → Nat → List UInt8
  | 0, _ => []
  | n + 1, x => UInt8.ofNat x :: leBytes n (x / 256)

def ofLeBytes : List UInt8 → Nat
  | [] => 0
  | b :: rest => b.toNat + 256 * ofLeBytes rest

@[simp] theorem length_leBytes (n x : Nat) : (leBytes n x).length = n := by
  induction n generalizing x with
  | zero => rfl
  | succ n ih => rw [leBytes, length_cons, ih]

theorem ofLeBytes_leBytes (n x : Nat) : ofLeBytes (leBytes n x) = x % 256 ^ n := by
  induction n generalizing x with
  | zero => rw [leBytes, ofLeBytes, Nat.pow_zero, Nat.mod_one]
  | succ n ih =>
    rw [leBytes, ofLeBytes, ih, UInt8.toNat_ofNat', show 2 ^ 8 = 256 from rfl, Nat.pow_succ',
      Nat.mod_mul]

/-! ## Memory -/

abbrev Page := Nat → UInt8

def slice (page : Page) (offset n : Nat) : List UInt8 :=
  (List.range n).map fun k => page (offset + k)

def patch (page : Page) (offset : Nat) : List UInt8 → Page
  | [] => page
  | b :: rest => patch (update page offset b) (offset + 1) rest

variable {page : Page} {offset n : Nat} {bytes : List UInt8}

@[simp] theorem length_slice (page : Page) (offset n : Nat) : (slice page offset n).length = n := by
  simp [slice]

theorem slice_congr {other : Page} (h : ∀ k < n, page (offset + k) = other (offset + k)) :
    slice page offset n = slice other offset n := by
  refine map_congr_left fun k hk => h k (mem_range.mp hk)

theorem slice_add (page : Page) (offset m n : Nat) :
    slice page offset (m + n) = slice page offset m ++ slice page (offset + m) n := by
  simp [slice, range_add, Nat.add_assoc, Function.comp_def]

/-- A patch is seen inside the range written. -/
theorem patch_apply (page : Page) (offset : Nat) (bytes : List UInt8) (x : Nat) :
    patch page offset bytes x = if offset ≤ x then bytes.getD (x - offset) (page x)
      else page x := by
  induction bytes generalizing page offset with
  | nil => simp [patch]
  | cons b rest ih =>
    rw [patch, ih]
    rcases Nat.lt_trichotomy x offset with hlt | rfl | hgt
    · rw [if_neg (by omega), if_neg (by omega), update_of_ne (by omega)]
    · rw [if_neg (by omega), if_pos le_rfl, update_self, Nat.sub_self, getD_cons_zero]
    · rw [if_pos (by omega), if_pos (by omega), update_of_ne (by omega),
        show x - offset = x - (offset + 1) + 1 by omega, getD_cons_succ]

theorem patch_of_lt {x : Nat} (h : x < offset) : patch page offset bytes x = page x := by
  rw [patch_apply, if_neg (by omega)]

theorem patch_of_ge {x : Nat} (h : offset + bytes.length ≤ x) :
    patch page offset bytes x = page x := by
  rw [patch_apply, if_pos (by omega), getD_eq_getElem?_getD, getElem?_eq_none (by omega),
    Option.getD_none]

theorem slice_patch_self (page : Page) (offset : Nat) (bytes : List UInt8) :
    slice (patch page offset bytes) offset bytes.length = bytes := by
  refine ext_getElem (by simp) fun k hk hk' => ?_
  simp [slice, patch_apply, hk']

theorem slice_patch_of_disjoint {other : Nat}
    (h : other + n ≤ offset ∨ offset + bytes.length ≤ other) :
    slice (patch page offset bytes) other n = slice page other n := by
  refine slice_congr fun k hk => ?_
  rcases h with h | h
  · exact patch_of_lt (by omega)
  · exact patch_of_ge (by omega)

theorem apply_of_slice (h : slice page offset bytes.length = bytes) {k : Nat}
    {byte : UInt8} (hk : bytes[k]? = some byte) : page (offset + k) = byte := by
  obtain ⟨hlt, hget⟩ := List.getElem?_eq_some_iff.mp hk
  have hslice := List.getElem_of_eq h.symm hlt
  rw [hget] at hslice
  rw [hslice]
  simp [slice]

/-- Writing what is there already. -/
theorem patch_slice (h : slice page offset bytes.length = bytes) :
    patch page offset bytes = page := by
  funext x
  by_cases hlt : x < offset
  · exact patch_of_lt hlt
  by_cases hge : offset + bytes.length ≤ x
  · exact patch_of_ge hge
  · have hx : x - offset < bytes.length := by omega
    rw [patch_apply, if_pos (by omega), getD_eq_getElem?_getD, getElem?_eq_getElem hx,
      Option.getD_some, ← apply_of_slice h (getElem?_eq_getElem hx)]
    congr 1
    omega

end Sisyphus.Bytes
