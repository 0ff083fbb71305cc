import Mathlib.Data.Nat.Dist
import Sisyphus.Foundation.Words

/-!
# The order of the tiles

`compile_schedule` sorts the tiles of a frame by urgency and, among equally urgent ones, by their
position on a Hilbert curve.  `rotate_hilbert` reflects a tile of the lower right quadrant without
taking its quadrant bit off first; the subtraction saturates, and the column is lost.
-/

set_option autoImplicit false

namespace Sisyphus.Crest

open Words

/-- `u32::saturating_mul`. -/
def saturatingMul32 (a b : UInt32) : UInt32 :=
  if a.toNat * b.toNat < 2 ^ 32 then a * b else 0xffffffff

/-- `rotate_hilbert`, as the new coordinates. -/
def rotateHilbert (scale x y rx ry : UInt32) : UInt32 × UInt32 :=
  if ry = 0 then
    if rx = 1 then
      (saturatingSub32 (saturatingSub32 scale 1) y, saturatingSub32 (saturatingSub32 scale 1) x)
    else (y, x)
  else (x, y)

/-- The loop of `hilbert_index` over the scales `2 ^ (n - 1)`, …, 2, 1. -/
def hilbertLoop : Nat → UInt32 → UInt32 → UInt32 → UInt32
  | 0, _, _, distance => distance
  | n + 1, x, y, distance =>
    let scale := (1 : UInt32) <<< UInt32.ofNat n
    let rx : UInt32 := if x &&& scale ≠ 0 then 1 else 0
    let ry : UInt32 := if y &&& scale ≠ 0 then 1 else 0
    let distance := saturatingAdd32 distance
      (saturatingMul32 (saturatingMul32 scale scale) ((3 * rx) ^^^ ry))
    let (x, y) := rotateHilbert scale x y rx ry
    hilbertLoop n x y distance

/-- `hilbert_index`; nothing when the shift that gives the first scale overflows. -/
def hilbertIndex (x y : UInt32) (order : UInt8) : Option UInt32 :=
  if order.toNat ≤ 32 then some (hilbertLoop (order.toNat - 1 + 1) x y 0) else none

/-- The key of a tile in the schedule, from its priority and its index. -/
def scheduleKey (priority hilbert : UInt32) : UInt64 :=
  pack (0xffffffff - priority) hilbert.toUInt64

/-- The tiles of the grid of an order. -/
def grid (order : UInt8) : Set (UInt32 × UInt32) :=
  { t | t.1.toNat < 2 ^ order.toNat ∧ t.2.toNat < 2 ^ order.toNat }

/-- The index of a tile as a number. -/
def index (order : UInt8) (t : UInt32 × UInt32) : Option Nat :=
  (hilbertIndex t.1 t.2 order).map UInt32.toNat

/-- How many steps from tile to tile along edges it is from `s` to `t`. -/
def steps (s t : UInt32 × UInt32) : Nat :=
  Nat.dist s.1.toNat t.1.toNat + Nat.dist s.2.toNat t.2.toNat

/-- The indices run over the grid along a Hilbert curve, and equally urgent tiles have different
keys. -/
structure HilbertOrder (order : UInt8) : Prop where
  bijective : Set.BijOn (index order) (grid order) (some '' Set.Iio (4 ^ order.toNat))
  adjacent : ∀ s ∈ grid order, ∀ t ∈ grid order, ∀ d, index order s = some d →
    index order t = some (d + 1) → steps s t = 1
  keys : ∀ priority,
    Set.InjOn (fun t => (hilbertIndex t.1 t.2 order).map (scheduleKey priority)) (grid order)

/-- An order whose tiles can be listed along the curve. -/
theorem HilbertOrder.of_tiles {order : UInt8} {m : Nat} (hm : 4 ^ order.toNat = m)
    (tiles : Fin m → UInt32 × UInt32) (hgrid : grid order = Set.range tiles)
    (hindex : ∀ i, index order (tiles i) = some i.val)
    (hedge : ∀ i j : Fin m, i.val + 1 = j → steps (tiles i) (tiles j) = 1) :
    HilbertOrder order := by
  have hbij : Set.BijOn (index order) (grid order) (some '' Set.Iio (4 ^ order.toNat)) := by
    rw [hgrid, hm]
    refine ⟨?_, ?_, ?_⟩
    · rintro _ ⟨i, rfl⟩
      exact ⟨i, i.isLt, (hindex i).symm⟩
    · rintro _ ⟨i, rfl⟩ _ ⟨j, rfl⟩ h
      rw [hindex, hindex] at h
      rw [Fin.ext (Option.some.inj h)]
    · rintro _ ⟨n, hn, rfl⟩
      exact ⟨_, ⟨⟨n, hn⟩, rfl⟩, hindex _⟩
  refine ⟨hbij, ?_, fun priority s hs t ht hkey => ?_⟩
  · rw [hgrid]
    rintro _ ⟨i, rfl⟩ _ ⟨j, rfl⟩ d hd he
    rw [hindex] at hd he
    cases hd
    exact hedge i j (Option.some.inj he).symm
  · have hlow : Function.Injective (scheduleKey priority) := fun d e h => by
      rw [← toUInt32_pack _ d, ← toUInt32_pack _ e]
      exact congrArg UInt64.toUInt32 h
    exact hbij.injOn hs ht (congrArg (Option.map UInt32.toNat) (Option.map_injective hlow hkey))

theorem hilbertOrder_of_le_one {order : UInt8} (h : order ≤ 1) : HilbertOrder order := by
  obtain rfl | rfl : order = 0 ∨ order = 1 := by
    simp only [UInt8.le_iff_toNat_le, ← UInt8.toNat_inj] at h ⊢
    simp at h ⊢
    omega
  · refine .of_tiles rfl ![(0, 0)] (Set.ext fun t => ?_) (by decide) (by decide)
    simp [grid, Prod.ext_iff, ← UInt32.toNat_inj]
  · refine .of_tiles rfl ![(0, 0), (0, 1), (1, 1), (1, 0)] (Set.ext fun t => ?_) (by decide)
      (by decide)
    simp [grid, Prod.ext_iff, ← UInt32.toNat_inj]
    omega

/-- The two leftmost tiles at the bottom of the right half have the same index. -/
theorem column_lost : ∀ k : Fin 31, let x : UInt32 := 1 <<< UInt32.ofNat (k + 1)
    (x.toNat < 2 ^ (k + 2 : Nat) ∧ (x + 1).toNat < 2 ^ (k + 2 : Nat)) ∧ x ≠ x + 1 ∧
      hilbertLoop (k + 2) x 0 0 = hilbertLoop (k + 2) (x + 1) 0 0 := by
  decide +kernel

/-- **The tiles are ordered along a Hilbert curve only on grids of at most two by two.** -/
theorem hilbertOrder_iff (order : UInt8) : HilbertOrder order ↔ order ≤ 1 := by
  refine ⟨fun h => ?_, hilbertOrder_of_le_one⟩
  by_contra hlarge
  have hzero : 0 < 2 ^ order.toNat := Nat.two_pow_pos _
  by_cases hshift : order.toNat ≤ 32
  · obtain ⟨k, hk⟩ : ∃ k : Fin 31, order.toNat = k + 2 := by
      rw [UInt8.le_iff_toNat_le, UInt8.toNat_one] at hlarge
      exact ⟨⟨order.toNat - 2, by omega⟩, by simp; omega⟩
    obtain ⟨⟨hleft, hright⟩, hne, hsame⟩ := column_lost k
    rw [← hk] at hleft hright
    have hinj := h.bijective.injOn
    refine hne (congrArg Prod.fst (@hinj (_, 0) ⟨hleft, hzero⟩ (_, 0) ⟨hright, hzero⟩ ?_))
    simp only [index, hilbertIndex, hk, Nat.add_one_sub_one, hsame]
  · obtain ⟨n, -, hn⟩ := h.bijective.mapsTo (show (0, 0) ∈ grid order from ⟨hzero, hzero⟩)
    simp [index, hilbertIndex, hshift] at hn

/-- Two tiles of the grid of four by four share the index 15. -/
theorem two_tiles_one_index : hilbertIndex 2 0 2 = some 15 ∧ hilbertIndex 3 0 2 = some 15 := by
  decide

end Sisyphus.Crest
