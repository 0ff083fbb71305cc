import Sisyphus.Foundation.Ensures
import Sisyphus.Crucible.Ir

/-!
# What the inliner and the unroller do to the buffer

The specifications of the building blocks: under the bounds their callers establish they do not
stop early, and what they leave alone in the array is stated index by index.  What comes after a
loop that is unrolled has only moved (`Moved`), which is why the loops a pass takes can be listed
from the program it is given (`IrBuffer.taken`).
-/

set_option autoImplicit false

namespace Sisyphus.Crucible

open Fallible Function List Option

/-- Nothing stops the action. -/
abbrev NoHalt : Halt → Workspace → Prop := fun _ _ => False

section Actions

variable {w : Workspace} {E : Halt → Workspace → Prop} {Q : Unit → Workspace → Prop}

theorem ensures_fetch {i : Nat} {Q : Instr → Workspace → Prop} (hi : i < maxIrInstructions) :
    Ensures (fetch i) w Q E ↔ Q (w.buf.instrs i) w := by
  simp [fetch, hi]

theorem ensures_store {i : Nat} {instr : Instr} (hi : i < maxIrInstructions) :
    Ensures (store i instr) w Q E ↔ Q () { w with buf.instrs := update w.buf.instrs i instr } := by
  simp [store, hi]

theorem ensures_addUsize {x y : Nat} {Q : Nat → Workspace → Prop} (h : x + y < 2 ^ 64) :
    Ensures (addUsize x y) w Q E ↔ Q (x + y) w := by
  simp only [addUsize, ensures_rules, decide_eq_true_eq, decide_eq_false_iff_not, ge_iff_le,
    Nat.not_le.mpr h, not_false_eq_true]

theorem ensures_addU32 {x y : UInt32} {Q : UInt32 → Workspace → Prop}
    (h : x.toNat + y.toNat < 2 ^ 32) : Ensures (addU32 x y) w Q E ↔ Q (x + y) w := by
  simp only [addU32, ensures_rules, decide_eq_true_eq, decide_eq_false_iff_not, ge_iff_le,
    Nat.not_le.mpr h, not_false_eq_true]

end Actions

/-! ## Moving instructions -/

variable {count : Nat} {w : Workspace}

/-- The instructions move, and nothing outside of where they go to changes. -/
theorem ensures_shiftRight {start shift : Nat} (hstart : start + count ≤ maxIrInstructions) :
    Ensures (shiftRight start count shift) w
      (fun _ w' => w'.engine = w.engine ∧ w'.buf.len = w.buf.len ∧
        (∀ j, j < start + shift ∨ start + count + shift ≤ j → w'.buf.instrs j = w.buf.instrs j) ∧
        ∀ k < count, start + k + shift < maxIrInstructions →
          w'.buf.instrs (start + k + shift) = w.buf.instrs (start + k)) NoHalt := by
  rw [shiftRight]
  induction count generalizing w with
  | zero => exact ⟨rfl, rfl, fun _ _ => rfl, fun k hk => absurd hk (Nat.not_lt_zero k)⟩
  | succ n ih =>
    rw [range_succ, reverse_append, reverse_singleton, singleton_append,
      forM_cons, ensures_bind, ensures_ite]
    refine ⟨fun hlt => ?_, fun hge => ?_⟩
    · rw [ensures_bind, ensures_fetch (by omega), ensures_store hlt]
      refine (ih (by omega)).imp_ok ?_
      rintro _ w' ⟨hengine, hlen, hframe, hmoved⟩
      have hother : ∀ j, j ≠ start + n + shift →
          update w.buf.instrs (start + n + shift) (w.buf.instrs (start + n)) j =
            w.buf.instrs j := fun j hj => update_of_ne hj _ _
      refine ⟨hengine, hlen, fun j hj => ?_, fun k hk hroom => ?_⟩
      · rw [hframe j (by omega)]
        exact hother j (by omega)
      · rcases Nat.lt_succ_iff_lt_or_eq.mp hk with hk | rfl
        · rw [hmoved k hk hroom]
          exact hother (start + k) (by omega)
        · rw [hframe _ (by omega)]
          exact update_self _ _ _
    · refine (ih (by omega)).imp_ok ?_
      rintro _ w' ⟨hengine, hlen, hframe, hmoved⟩
      refine ⟨hengine, hlen, fun j hj => hframe j (by omega), fun k hk hroom => ?_⟩
      exact hmoved k (by omega) hroom

/-! ## Unrolling -/

theorem ensures_capture {loopStart bodyLen : Nat} (h : loopStart + bodyLen ≤ maxIrInstructions) :
    Ensures (capture loopStart bodyLen) w (fun _ w' => w' = w) NoHalt := by
  refine ensures_foldlM (I := fun _ _ w' => w' = w) rfl ?_
  rintro done k rest hsplit body w' rfl
  have hk : k < min bodyLen scratchLen := by
    rw [← mem_range, hsplit]
    exact mem_append_right _ mem_cons_self
  rw [ensures_bind, ensures_fetch (by omega), ensures_pure]

variable {tripCount : Nat}

/-- There is room for the copies, and nothing outside of them changes. -/
theorem ensures_writeCopies {body : Nat → Instr} {insertAt bodyLen : Nat}
    (hscratch : bodyLen ≤ scratchLen)
    (hroom : insertAt + (tripCount - 1) * bodyLen ≤ maxIrInstructions) :
    Ensures (writeCopies body insertAt bodyLen tripCount) w
      (fun _ w' => w'.engine = w.engine ∧ w'.buf.len = w.buf.len ∧
        ∀ j, insertAt + (tripCount - 1) * bodyLen ≤ j → w'.buf.instrs j = w.buf.instrs j)
      NoHalt := by
  refine ensures_forM_range (I := fun copies (w' : Workspace) => w'.engine = w.engine ∧
    w'.buf.len = w.buf.len ∧
    ∀ j, insertAt + copies * bodyLen ≤ j → w'.buf.instrs j = w.buf.instrs j)
    ⟨rfl, rfl, fun _ _ => rfl⟩ ?_
  rintro copies hcopies w₁ ⟨hengine, hlen, hframe⟩
  have hnext : (copies + 1) * bodyLen ≤ (tripCount - 1) * bodyLen :=
    Nat.mul_le_mul_right _ hcopies
  rw [Nat.succ_mul] at hnext ⊢
  refine ensures_forM_range (I := fun n (w' : Workspace) => w'.engine = w.engine ∧
    w'.buf.len = w.buf.len ∧
    ∀ j, insertAt + (copies * bodyLen + n) ≤ j → w'.buf.instrs j = w.buf.instrs j)
    ⟨hengine, hlen, hframe⟩ ?_
  rintro n hn w₂ ⟨hengine₂, hlen₂, hframe₂⟩
  have hlt : insertAt + copies * bodyLen + n < maxIrInstructions := by omega
  rw [if_pos hlt, scratch]
  simp only [ensures_rules, decide_eq_true_eq, decide_eq_false_iff_not, ge_iff_le]
  refine ⟨fun hge => by omega, fun _ => ?_⟩
  rw [ensures_store hlt]
  exact ⟨hengine₂, hlen₂, fun j hj =>
    (update_of_ne (by omega) _ _).trans (hframe₂ j (by omega))⟩

/-- From position `p` on, `buf'` has the code of `buf`, moved by `x`. -/
structure Moved (buf buf' : IrBuffer) (p x : Nat) : Prop where
  len : buf'.len = buf.len + x
  same : ∀ j, p ≤ j → j < buf.len → buf'.instrs (j + x) = buf.instrs j

variable {i loopEnd : Nat}

/-- Unrolling a loop whose body fits into the scratch array. -/
theorem ensures_unrollAt (hi : i < loopEnd) (hend : loopEnd < w.buf.len)
    (hscratch : loopEnd - (i + 1) ≤ scratchLen)
    (hroom : (loopEnd - (i + 1)) * (tripCount - 1) + w.buf.len ≤ maxIrInstructions)
    (hloops : w.engine.unroller.loopsUnrolled.toNat + 1 < 2 ^ 32)
    (hadded :
      w.engine.unroller.instrsAdded.toNat + (loopEnd - (i + 1)) * (tripCount - 1) < 2 ^ 32) :
    Ensures (unrollAt i loopEnd tripCount) w
      (fun _ w' => Moved w.buf w'.buf (loopEnd + 1) ((loopEnd - (i + 1)) * (tripCount - 1)) ∧
        w'.engine.unroller.loopsUnrolled.toNat = w.engine.unroller.loopsUnrolled.toNat + 1 ∧
        w'.engine.unroller.instrsAdded.toNat =
          w.engine.unroller.instrsAdded.toNat + (loopEnd - (i + 1)) * (tripCount - 1)) NoHalt := by
  simp only [unrollAt, ensures_bind]
  refine (ensures_capture (by omega)).imp_ok ?_
  rintro body w₁ rfl
  rw [ensures_store (by omega), ensures_store (by omega), ensures_get]
  have hcomm : (tripCount - 1) * (loopEnd - (i + 1)) = (loopEnd - (i + 1)) * (tripCount - 1) :=
    Nat.mul_comm _ _
  refine (ensures_shiftRight (by simp only; omega)).imp_ok ?_
  rintro _ w₂ ⟨hengine₂, hlen₂, -, hmoved⟩
  refine (ensures_writeCopies hscratch (by omega)).imp_ok ?_
  rintro _ w₃ ⟨hengine₃, hlen₃, hframe₃⟩
  simp only at hengine₂ hlen₂ hmoved
  have hengine : w₃.engine = w₁.engine := hengine₃.trans hengine₂
  have hextra : ((loopEnd - (i + 1)) * (tripCount - 1)).toUInt32.toNat =
      (loopEnd - (i + 1)) * (tripCount - 1) :=
    (UInt32.toNat_ofNat').trans (Nat.mod_eq_of_lt (by omega))
  rw [setLen, ensures_modify]
  simp only [ensures_get, hengine]
  rw [ensures_addU32 (by simpa using hloops), ensures_addU32 (by rw [hextra]; exact hadded)]
  refine ⟨⟨Nat.min_eq_left (by omega), fun j hj hj' => ?_⟩, ?_, ?_⟩
  · have hmove := hmoved (j - (loopEnd + 1)) (by omega) (by omega)
    rw [Nat.add_sub_of_le hj, update_of_ne (by omega), update_of_ne (by omega)] at hmove
    rw [hframe₃ _ (by omega), hmove]
  · rw [UInt32.toNat_add, Nat.mod_eq_of_lt (by simpa using hloops)]
    rfl
  · rw [UInt32.toNat_add, hextra, Nat.mod_eq_of_lt hadded]

/-- A body that does not fit into the scratch array stops the pass. -/
theorem ensures_unrollAt_long (hi : i < loopEnd) (hend : loopEnd < w.buf.len)
    (hscratch : scratchLen < loopEnd - (i + 1)) (htrip : 2 ≤ tripCount)
    (hroom : (loopEnd - (i + 1)) * (tripCount - 1) + w.buf.len ≤ maxIrInstructions) :
    Ensures (unrollAt i loopEnd tripCount) w (fun _ _ => False) fun _ _ => True := by
  simp only [unrollAt, ensures_bind]
  refine (ensures_capture (by omega)).mono ?_ fun _ _ _ => trivial
  rintro body w₁ rfl
  rw [ensures_store (by omega), ensures_store (by omega), ensures_get]
  refine (ensures_shiftRight (by simp only; omega)).mono ?_ fun _ _ _ => trivial
  rintro _ w₂ ⟨hengine₂, hlen₂, -, -⟩
  have hwrite : Ensures (writeCopies body (loopEnd + 1) (loopEnd - (i + 1)) tripCount) w₂
      (fun _ _ => False) fun _ _ => True := by
    refine ensures_forM_fails (x := 0) (mem_range.mpr (by omega)) fun w₃ => ?_
    refine ensures_forM_fails (mem_range.mpr hscratch) fun w₄ => ?_
    have hfirst : loopEnd - (i + 1) ≤ (loopEnd - (i + 1)) * (tripCount - 1) :=
      Nat.le_mul_of_pos_right _ (by omega)
    rw [if_pos (by omega)]
    simp [scratch]
  refine hwrite.mono ?_ fun _ _ _ => trivial
  rintro _ _ ⟨⟩

/-! ## The loops the unroller takes -/

theorem scanLoopEnd_bounds {instrs : Nat → Instr} {j depth : Nat}
    (h : scanLoopEnd instrs count j depth = some loopEnd) : j ≤ loopEnd ∧ loopEnd < j + count := by
  induction count generalizing j depth with
  | zero => exact absurd h (by simp [scanLoopEnd])
  | succ count ih =>
    rw [scanLoopEnd] at h
    split at h
    case h_1 =>
      have := ih h
      omega
    case h_2 =>
      split at h
      case isTrue =>
        obtain rfl := some.inj h
        omega
      case isFalse =>
        have := ih h
        omega
    case h_3 =>
      have := ih h
      omega

variable {x : Nat}

/-- The scan of code that has moved finds the same end, moved. -/
theorem scanLoopEnd_shift {instrs instrs' : Nat → Instr} {j depth : Nat}
    (h : ∀ m, j ≤ m → m < j + count → instrs' (m + x) = instrs m) :
    scanLoopEnd instrs' count (j + x) depth = (scanLoopEnd instrs count j depth).map (· + x) := by
  induction count generalizing j depth with
  | zero => rfl
  | succ count ih =>
    have hih : ∀ depth, scanLoopEnd instrs' count (j + x + 1) depth =
        (scanLoopEnd instrs count (j + 1) depth).map (· + x) := fun depth => by
      rw [Nat.add_right_comm]
      exact ih fun m hm hm' => h m (by omega) (by omega)
    rw [scanLoopEnd, scanLoopEnd, h j le_rfl (by omega)]
    split
    case h_1 => exact hih _
    case h_2 =>
      split
      case isTrue => rfl
      case isFalse => exact hih _
    case h_3 => exact hih _

variable {buf : IrBuffer}

/-- What makes a loop one that the unroller takes. -/
theorem unrollable_eq_some {len : Nat} (h : buf.unrollable len i = some (loopEnd, tripCount)) :
    (buf.instrs i).op = .loopBegin ∧ tripCount = min (buf.instrs i).a.toNat maxUnrollFactor ∧
      2 ≤ tripCount ∧ buf.findLoopEnd i = some loopEnd ∧ i + 1 < loopEnd ∧ loopEnd < buf.len ∧
      (loopEnd - (i + 1)) * tripCount + len ≤ maxIrInstructions := by
  simp only [IrBuffer.unrollable] at h
  split at h
  case isFalse => exact absurd h (by simp)
  case isTrue hop =>
    split at h
    case isTrue => exact absurd h (by simp)
    case isFalse htrip =>
      split at h
      case h_1 => exact absurd h (by simp)
      case h_2 e hend =>
        split at h
        case isTrue => exact absurd h (by simp)
        case isFalse hroom =>
          obtain ⟨rfl, rfl⟩ := Prod.mk.inj (some.inj h)
          have hbounds := scanLoopEnd_bounds hend
          refine ⟨hop, rfl, by omega, hend, ?_, ?_, ?_⟩ <;> omega

variable {buf' : IrBuffer} {p : Nat}

theorem Moved.findLoopEnd (h : Moved buf buf' p x) (hp : p ≤ i) :
    buf'.findLoopEnd (i + x) = (buf.findLoopEnd i).map (· + x) := by
  have hcount : buf'.len - (i + x + 1) = buf.len - (i + 1) := by
    rw [h.len]
    omega
  rw [IrBuffer.findLoopEnd, IrBuffer.findLoopEnd, hcount, Nat.add_right_comm]
  exact scanLoopEnd_shift fun m hm hm' => h.same m (by omega) (by omega)

theorem Moved.unrollable (h : Moved buf buf' p x) (hp : p ≤ i) (hi : i < buf.len) (len : Nat) :
    buf'.unrollable len (i + x) = (buf.unrollable len i).map fun loop => (loop.1 + x, loop.2) := by
  have hlen : ∀ e, e + x - (i + x + 1) = e - (i + 1) := fun e => by omega
  rw [IrBuffer.unrollable, IrBuffer.unrollable, h.same i hp hi, h.findLoopEnd hp]
  split
  case isFalse => rfl
  case isTrue =>
    simp only
    split
    case isTrue => rfl
    case isFalse =>
      cases hend : buf.findLoopEnd i with
      | none => rfl
      | some e =>
        simp only [map_some, hlen]
        split
        case isTrue => rfl
        case isFalse => rfl

/-- The beginnings and ends of the loops the unroller takes from `i` on, in the coordinates of the
program it is given; `len` is the length the program has grown to. -/
def IrBuffer.takenFrom (buf : IrBuffer) : Nat → Nat → Nat → List (Nat × Nat)
  | 0, _, _ => []
  | fuel + 1, len, i =>
    if i < buf.len then
      match buf.unrollable len i with
      | none => buf.takenFrom fuel len (i + 1)
      | some (loopEnd, tripCount) =>
        (i, loopEnd) ::
          buf.takenFrom fuel (len + (loopEnd - (i + 1)) * (tripCount - 1)) (loopEnd + 1)
    else []

/-- The loops the unroller takes: those with a count of at least two, a matching end and a body,
for whose copies there is room after the copies of the loops before. -/
def IrBuffer.taken (buf : IrBuffer) : List (Nat × Nat) := buf.takenFrom buf.len buf.len 0

theorem Moved.takenFrom (h : Moved buf buf' p x) (fuel len i : Nat) (hp : p ≤ i) :
    buf'.takenFrom fuel len (i + x) =
      (buf.takenFrom fuel len i).map fun loop => (loop.1 + x, loop.2 + x) := by
  induction fuel generalizing len i with
  | zero => rfl
  | succ fuel ih =>
    rw [IrBuffer.takenFrom, IrBuffer.takenFrom]
    by_cases hi : i < buf.len
    · have hi' : i + x < buf'.len := by
        rw [h.len]
        omega
      rw [if_pos hi, if_pos hi', h.unrollable hp hi]
      cases hloop : buf.unrollable len i with
      | none =>
        have := ih len (i + 1) (by omega)
        rwa [Nat.add_right_comm] at this
      | some loop =>
        obtain ⟨e, n⟩ := loop
        obtain ⟨_, _, _, _, hlt, _⟩ := unrollable_eq_some hloop
        have := ih (len + (e - (i + 1)) * (n - 1)) (e + 1) (by omega)
        rw [Nat.add_right_comm] at this
        simp only [map_some, map_cons]
        rw [show e + x - (i + x + 1) = e - (i + 1) by omega, this]
    · have hi' : ¬ i + x < buf'.len := by
        rw [h.len]
        omega
      rw [if_neg hi, if_neg hi']
      rfl

end Sisyphus.Crucible
