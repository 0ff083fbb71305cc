import Sisyphus.Foundation.Bytes

/-!
# Transfer request blocks

A model of `RawTrb` of `xhci_ring.rs` and of how a ring page is cut into blocks of sixteen bytes.
The last four bytes are the control word, and its lowest bit is the cycle bit, which is therefore in
the byte at offset twelve.
-/

set_option autoImplicit false

namespace Sisyphus.Xhci

open Bytes List

def pageSize : Nat := 4096
def trbBytes : Nat := 16
def trbsPerPage : Nat := pageSize / trbBytes
def commandLinkIndex : Nat := trbsPerPage - 1
def commandCapacity : Nat := commandLinkIndex
def eventCapacity : Nat := trbsPerPage
def trbCycle : UInt32 := 1
def linkToggleCycle : UInt32 := 2
def trbTypeShift : UInt32 := 10
def trbTypeMask : UInt32 := 0x3f <<< trbTypeShift
def trbTypeLink : UInt8 := 6
def trbTypeNoOpCommand : UInt8 := 23
def trbTypeCommandCompletionEvent : UInt8 := 33

structure RawTrb where
  parameter : UInt64
  status : UInt32
  control : UInt32

namespace RawTrb

def zero : RawTrb := ⟨0, 0, 0⟩

def trbType (trb : RawTrb) : UInt8 := ((trb.control &&& trbTypeMask) >>> trbTypeShift).toUInt8

def cycle (trb : RawTrb) : Bool := trb.control &&& trbCycle != 0

def encode (trb : RawTrb) : List UInt8 :=
  leBytes 8 trb.parameter.toNat ++ leBytes 4 trb.status.toNat ++ leBytes 4 trb.control.toNat

def decode (bytes : List UInt8) : RawTrb where
  parameter := UInt64.ofNat (ofLeBytes (bytes.take 8))
  status := UInt32.ofNat (ofLeBytes ((bytes.drop 8).take 4))
  control := UInt32.ofNat (ofLeBytes ((bytes.drop 12).take 4))

@[simp] theorem length_encode (trb : RawTrb) : trb.encode.length = trbBytes := by
  simp [encode, trbBytes]

theorem decode_encode (trb : RawTrb) : decode trb.encode = trb := by
  have hparameter : trb.encode.take 8 = leBytes 8 trb.parameter.toNat := by
    rw [encode, append_assoc, take_left' (length_leBytes ..)]
  have hstatus : (trb.encode.drop 8).take 4 = leBytes 4 trb.status.toNat := by
    rw [encode, append_assoc, drop_left' (length_leBytes ..), take_left' (length_leBytes ..)]
  have hcontrol : (trb.encode.drop 12).take 4 = leBytes 4 trb.control.toNat := by
    rw [encode, drop_left' (by simp), take_of_length_le (by simp)]
  have hword : ∀ x : UInt32, UInt32.ofNat (ofLeBytes (leBytes 4 x.toNat)) = x := by
    intro x
    rw [ofLeBytes_leBytes, show 256 ^ 4 = 2 ^ 32 from rfl, Nat.mod_eq_of_lt x.toNat_lt,
      UInt32.ofNat_toNat]
  rw [decode, hparameter, hstatus, hcontrol, hword, hword, ofLeBytes_leBytes,
    show 256 ^ 8 = 2 ^ 64 from rfl, Nat.mod_eq_of_lt trb.parameter.toNat_lt, UInt64.ofNat_toNat]

end RawTrb

/-! ## Slots of a page -/

/-- The block at an index. -/
def slot (page : Page) (i : Nat) : RawTrb := .decode (slice page (trbBytes * i) trbBytes)

/-- The cycle bit of the block at an index. -/
def cycleAt (page : Page) (i : Nat) : Bool := (page (trbBytes * i + 12)).toNat % 2 == 1

variable {page : Page} {i j offset : Nat} {bytes : List UInt8}

theorem cycle_slot (page : Page) (i : Nat) : (slot page i).cycle = cycleAt page i := by
  have hdrop : ((slice page (16 * i) 16).drop 12).take 4 =
      page (16 * i + 12) :: slice page (16 * i + 13) 3 := rfl
  have hcontrol : (slot page i).control =
      UInt32.ofNat ((page (16 * i + 12)).toNat + 256 * ofLeBytes (slice page (16 * i + 13) 3)) := by
    rw [slot, RawTrb.decode, trbBytes, hdrop, ofLeBytes]
  have hand : ∀ x : Nat, (UInt32.ofNat x &&& 1).toNat = x % 2 := by
    intro x
    rw [UInt32.toNat_and, UInt32.toNat_ofNat', UInt32.toNat_one, Nat.and_one_is_mod]
    omega
  have hzero : ∀ x : UInt32, (x != 0) = (x.toNat != 0) := by
    intro x
    rw [Bool.eq_iff_iff, bne_iff_ne, bne_iff_ne, Ne, ← UInt32.toNat_inj]
    rfl
  rw [RawTrb.cycle, hcontrol, show trbCycle = 1 from rfl, hzero, hand, cycleAt, trbBytes]
  generalize (page (16 * i + 12)).toNat = x
  rw [show (x + 256 * ofLeBytes (slice page (16 * i + 13) 3)) % 2 = x % 2 by omega]
  rcases Nat.mod_two_eq_zero_or_one x with h | h <;> rw [h] <;> rfl

/-- Bytes written inside one block leave the others alone. -/
theorem slot_patch_of_ne (hlow : trbBytes * i ≤ offset)
    (hhigh : offset + bytes.length ≤ trbBytes * i + trbBytes) (hne : j ≠ i) :
    slot (patch page offset bytes) j = slot page j := by
  rw [slot, slot, slice_patch_of_disjoint]
  rw [trbBytes] at *
  omega

theorem slot_patch_self (page : Page) (i : Nat) (trb : RawTrb) :
    slot (patch page (trbBytes * i) trb.encode) i = trb := by
  rw [slot, ← RawTrb.length_encode trb, slice_patch_self, RawTrb.decode_encode]

theorem slot_patch (page : Page) (i j : Nat) (trb : RawTrb) :
    slot (patch page (trbBytes * i) trb.encode) j = if j = i then trb else slot page j := by
  by_cases hj : j = i
  · rw [if_pos hj, hj, slot_patch_self]
  · rw [if_neg hj, slot_patch_of_ne le_rfl (by rw [RawTrb.length_encode]) hj]

end Sisyphus.Xhci
