import Sisyphus.Foundation.Chains
import Sisyphus.Crucible.Liveness

/-!
# Which programs and tables the passes get through

Dead-code elimination and compaction always end without stopping early.  The unroller does exactly
when no loop it takes has a body longer than its scratch array.

The inliner looks at a position again after it has put a body there.  A body of two or more
instructions makes the program longer, which can happen only so often; one of at most one
instruction does not, so what matters is whether the sites that such bodies leave at the position
come to an end (`Chains.Settles`).  If they do from every function, the inliner ends on every
program; if they do not from one, it never leaves the program that consists of a site of that
function.
-/

set_option autoImplicit false

namespace Sisyphus.Crucible

open Fallible List

/-- With some amount of fuel the pass comes to its end. -/
def Finishes (pass : Nat → Pass Unit) (w : Workspace) : Prop := ∃ fuel w', pass fuel w = .ok () w'

variable {pass : Nat → Pass Unit} {w : Workspace}

theorem Finishes.of_ensures (fuel : Nat) {Q : Unit → Workspace → Prop}
    (h : Ensures (pass fuel) w Q NoHalt) : Finishes pass w := by
  rcases h.cases with ⟨_, w', hrun, _⟩ | ⟨_, _, _, hfalse⟩
  · exact ⟨fuel, w', hrun⟩
  · exact absurd hfalse not_false

theorem Finishes.not_of_ensures
    (h : ∀ fuel, Ensures (pass fuel) w (fun _ _ => False) fun _ _ => True) : ¬ Finishes pass w := by
  rintro ⟨fuel, w', hrun⟩
  exact (h fuel).of_ok hrun

/-! ## The unroller -/

/-- The loop's body fits into the scratch array. -/
def Short (loop : Nat × Nat) : Prop := loop.2 - (loop.1 + 1) ≤ scratchLen

/-- The counters of the unroller cannot overflow at position `i`. -/
structure Counting (w : Workspace) (i : Nat) : Prop where
  loops : w.engine.unroller.loopsUnrolled.toNat ≤ i
  added : w.engine.unroller.instrsAdded.toNat ≤ w.buf.len

variable {fuel : Nat}

section Unroller

variable {w : Workspace} {i loopEnd tripCount : Nat}

/-- A loop is only taken if there is room for all of its turns. -/
theorem unrollable_fits (hloop : w.buf.unrollable w.buf.len i = some (loopEnd, tripCount)) :
    (loopEnd - (i + 1)) * (tripCount - 1) + w.buf.len ≤ maxIrInstructions := by
  obtain ⟨_, _, _, _, _, _, hroom⟩ := unrollable_eq_some hloop
  have hextra : (loopEnd - (i + 1)) * (tripCount - 1) ≤ (loopEnd - (i + 1)) * tripCount :=
    Nat.mul_le_mul_left _ (Nat.sub_le _ _)
  omega

/-- One turn of the unroller at a loop it takes, if the loop is short. -/
theorem ensures_unrollAt_taken (hcount : Counting w i)
    (hloop : w.buf.unrollable w.buf.len i = some (loopEnd, tripCount))
    (hshort : Short (i, loopEnd)) :
    Ensures (unrollAt i loopEnd tripCount) w
      (fun _ w' => Moved w.buf w'.buf (loopEnd + 1) ((loopEnd - (i + 1)) * (tripCount - 1)) ∧
        Counting w' (loopEnd + 1 + (loopEnd - (i + 1)) * (tripCount - 1))) NoHalt := by
  obtain ⟨_, _, htrip, _, hbody, hend, -⟩ := unrollable_eq_some hloop
  have hsmall : maxIrInstructions < 2 ^ 20 := by decide
  have hfits := unrollable_fits hloop
  have hloops := hcount.loops
  have hadded := hcount.added
  have hroom' : w.engine.unroller.instrsAdded.toNat +
      (loopEnd - (i + 1)) * (tripCount - 1) < 2 ^ 32 := by omega
  refine (ensures_unrollAt (by omega) hend hshort hfits (by omega) hroom').imp_ok ?_
  rintro _ w' ⟨hmoved, hloops', hadded'⟩
  have hlen := hmoved.len
  exact ⟨hmoved, by omega, by omega⟩

theorem short_shift {loop : Nat × Nat} {x : Nat} : Short (loop.1 + x, loop.2 + x) ↔ Short loop := by
  rw [Short, Short, show loop.2 + x - (loop.1 + x + 1) = loop.2 - (loop.1 + 1) by omega]

/-- When all loops it takes are short, the unroller runs to its end. -/
theorem ensures_unrollLoop (hcount : Counting w i) (hfuel : w.buf.len ≤ fuel + i)
    (hshort : ∀ loop ∈ w.buf.takenFrom fuel w.buf.len i, Short loop) :
    Ensures (unrollLoop (fuel + 1) i) w (fun _ _ => True) NoHalt := by
  induction fuel generalizing w i with
  | zero =>
    rw [unrollLoop, ensures_bind, ensures_get, if_neg (by omega)]
    trivial
  | succ fuel ih =>
    rw [unrollLoop, ensures_bind, ensures_get, ensures_ite]
    refine ⟨fun hi => ?_, fun _ => trivial⟩
    rw [ensures_bind, ensures_fetch (hi.trans_le w.buf.len_le)]
    rw [IrBuffer.takenFrom, if_pos hi] at hshort
    cases hloop : w.buf.unrollable w.buf.len i with
    | none =>
      simp only [hloop] at hshort
      exact ih ⟨hcount.loops.trans (Nat.le_succ i), hcount.added⟩ (by omega) hshort
    | some loop =>
      simp only [hloop, forall_mem_cons] at hshort
      rw [ensures_bind]
      refine (ensures_unrollAt_taken hcount hloop hshort.1).imp_ok ?_
      rintro _ w₁ ⟨hmoved, hcount₁⟩
      obtain ⟨_, _, _, _, hbody, _⟩ := unrollable_eq_some hloop
      have hlen := hmoved.len
      refine ih hcount₁ (by omega) ?_
      rw [hmoved.takenFrom _ _ _ le_rfl, hlen]
      intro _ hmem
      obtain ⟨loop, hloop, rfl⟩ := mem_map.mp hmem
      exact short_shift.mpr (hshort.2 loop hloop)

/-- A loop that is not short stops the unroller. -/
theorem unrollLoop_stops {fuel n : Nat} (hcount : Counting w i)
    (hlong : ∃ loop ∈ w.buf.takenFrom n w.buf.len i, ¬ Short loop) :
    Ensures (unrollLoop fuel i) w (fun _ _ => False) fun _ _ => True := by
  induction fuel generalizing w i n with
  | zero => exact trivial
  | succ fuel ih =>
    obtain ⟨long, hmem, hlong⟩ := hlong
    cases n with
    | zero => exact absurd hmem not_mem_nil
    | succ n =>
      rw [IrBuffer.takenFrom] at hmem
      rw [unrollLoop, ensures_bind, ensures_get, ensures_ite]
      refine ⟨fun hi => ?_, fun hi => ?_⟩
      · rw [if_pos hi] at hmem
        rw [ensures_bind, ensures_fetch (hi.trans_le w.buf.len_le)]
        cases hloop : w.buf.unrollable w.buf.len i with
        | none =>
          simp only [hloop] at hmem
          exact ih ⟨hcount.loops.trans (Nat.le_succ i), hcount.added⟩ ⟨long, hmem, hlong⟩
        | some loop =>
          obtain ⟨loopEnd, tripCount⟩ := loop
          obtain ⟨_, _, htrip, _, hbody, hend, -⟩ := unrollable_eq_some hloop
          simp only [hloop, mem_cons] at hmem
          rw [ensures_bind]
          by_cases hshort : Short (i, loopEnd)
          · refine (ensures_unrollAt_taken hcount hloop hshort).mono ?_ fun _ _ _ => trivial
            rintro _ w₁ ⟨hmoved, hcount₁⟩
            have hrest := hmem.resolve_left fun heq => hlong (heq ▸ hshort)
            refine ih (n := n) hcount₁ ?_
            rw [hmoved.takenFrom _ _ _ le_rfl, hmoved.len]
            exact ⟨_, mem_map_of_mem hrest, fun h => hlong (short_shift.mp h)⟩
          · exact (ensures_unrollAt_long (by omega) hend (Nat.not_le.mp hshort) htrip
              (unrollable_fits hloop)).imp_ok (fun _ _ h => absurd h not_false)
      · rw [if_neg hi] at hmem
        exact absurd hmem not_mem_nil

end Unroller

/-! ## The inliner -/

section Inliner

variable (bodyBuf : Nat → Instr) (table : FunctionTable)

/-- The function whose site is at the position after the body of a function of at most one
instruction has been put there.  An empty body, and one outside of the array, leaves the site as it
is. -/
def nextSite (fnId : UInt8) : Option UInt8 :=
  match table.lookup fnId with
  | none => none
  | some entry =>
    if entry.len.toNat ≤ 1 then
      if 0 < entry.len.toNat ∧ entry.start.toNat < maxIrInstructions then
        if (bodyBuf entry.start.toNat).op = .inlineSite then some (bodyBuf entry.start.toNat).a
        else none
      else some fnId
    else none

/-- The inliner gets through every program: no length and no index of a body overflows, and from no
function do the one-instruction bodies lead on without end. -/
structure Inlinable : Prop where
  lengths : ∀ fnId entry, table.lookup fnId = some entry →
    entry.len.toNat + maxIrInstructions < 2 ^ 64
  indices : ∀ fnId entry, table.lookup fnId = some entry → entry.len.toNat < maxIrInstructions →
    entry.start.toNat + (entry.len.toNat - 1) < 2 ^ 64
  settles : ∀ fnId, Chains.Settles (nextSite bodyBuf table) fnId

variable {bodyBuf table} {w : Workspace} {i : Nat} {entry : FnEntry} {E : Halt → Workspace → Prop}

theorem ensures_copyBody (hlen : entry.start.toNat + (entry.len.toNat - 1) < 2 ^ 64) :
    Ensures (copyBody bodyBuf i entry) w
      (fun _ w' => w'.engine = w.engine ∧ w'.buf.len = w.buf.len ∧
        (w'.buf.instrs i = if 0 < entry.len.toNat ∧ i < maxIrInstructions ∧
            entry.start.toNat < maxIrInstructions
          then bodyBuf entry.start.toNat else w.buf.instrs i)) NoHalt := by
  refine ensures_forM_range (I := fun n (w' : Workspace) => w'.engine = w.engine ∧
    w'.buf.len = w.buf.len ∧
    w'.buf.instrs i = if 0 < n ∧ i < maxIrInstructions ∧ entry.start.toNat < maxIrInstructions
      then bodyBuf entry.start.toNat else w.buf.instrs i) ⟨rfl, rfl, by simp⟩ ?_
  rintro k hk w₁ ⟨hengine, hbuf, hat⟩
  rw [ensures_bind, ensures_addUsize (by omega), ensures_ite]
  refine ⟨fun hcond => ?_, fun hcond => ?_⟩
  · rw [ensures_store hcond.1]
    refine ⟨hengine, hbuf, ?_⟩
    rcases Nat.eq_zero_or_pos k with rfl | hpos
    · rw [if_pos ⟨Nat.zero_lt_one, hcond⟩]
      exact Function.update_self _ _ _
    · refine (Function.update_of_ne (by omega) _ _).trans (hat.trans ?_)
      simp [hpos]
  · refine ⟨hengine, hbuf, hat.trans ?_⟩
    rcases Nat.eq_zero_or_pos k with rfl | hpos
    · rw [if_neg (fun h => absurd h.1 (Nat.lt_irrefl 0)), if_neg fun h => hcond h.2]
    · simp [hpos]

theorem ensures_makeRoom {shift : Nat} (hi : i < w.buf.len)
    (hroom : w.buf.len + shift ≤ maxIrInstructions) :
    Ensures (makeRoom i shift) w
      (fun _ w' => w'.engine = w.engine ∧ w'.buf.len = w.buf.len + shift ∧
        w'.buf.instrs i = w.buf.instrs i) NoHalt := by
  rw [makeRoom, ensures_bind, ensures_get, ensures_ite]
  refine ⟨fun _ => ?_, fun hnone => ⟨rfl, by omega, rfl⟩⟩
  rw [ensures_bind]
  refine (ensures_shiftRight (by omega)).imp_ok ?_
  rintro _ w₁ ⟨hengine, _, hframe, _⟩
  exact ⟨hengine, Nat.min_eq_left hroom, hframe i (.inl (by omega))⟩

theorem ensures_countSite {inlineCost : UInt8}
    (hsites : w.engine.inliner.sitesInlined.toNat + 1 < 2 ^ 32)
    (hbytes : w.engine.inliner.bytesSaved.toNat + 255 < 2 ^ 32) :
    Ensures (countSite inlineCost) w
      (fun _ w' => w'.buf = w.buf ∧
        w'.engine.inliner.sitesInlined.toNat = w.engine.inliner.sitesInlined.toNat + 1 ∧
        w'.engine.inliner.bytesSaved.toNat ≤ w.engine.inliner.bytesSaved.toNat + 255) NoHalt := by
  have hcost : inlineCost.toUInt32.toNat ≤ 255 := by
    rw [UInt8.toNat_toUInt32]
    have := inlineCost.toNat_lt
    omega
  rw [countSite, ensures_bind, ensures_get, ensures_bind, ensures_addU32 (by simpa using hsites),
    ensures_bind, ensures_addU32 (by omega), ensures_set]
  refine ⟨rfl, ?_, ?_⟩
  · rw [UInt32.toNat_add, Nat.mod_eq_of_lt (by simpa using hsites)]
    rfl
  · rw [UInt32.toNat_add, Nat.mod_eq_of_lt (by omega)]
    omega

/-- What is at the position of a site after its replacement by a body of at most one instruction. -/
def settled (bodyBuf : Nat → Instr) (entry : FnEntry) (site : Instr) : Instr :=
  if 0 < entry.len.toNat ∧ entry.start.toNat < maxIrInstructions then bodyBuf entry.start.toNat
  else site

theorem nextSite_of_short {instr : Instr} (hop : instr.op = .inlineSite)
    (hentry : table.lookup instr.a = some entry) (hshort : entry.len.toNat ≤ 1) :
    nextSite bodyBuf table instr.a = if (settled bodyBuf entry instr).op = .inlineSite then
      some (settled bodyBuf entry instr).a else none := by
  rw [nextSite, hentry, settled]
  simp only [if_pos hshort]
  split
  case isTrue => rfl
  case isFalse => rfl

/-- A replacement up to its counters: `countSite` finds the body in the place of the site. -/
theorem ensures_expand_of {Q : Unit → Workspace → Prop} {E : Halt → Workspace → Prop}
    (hi : i < w.buf.len) (htotal : w.buf.len + entry.len.toNat ≤ maxIrInstructions)
    (hlen : entry.start.toNat + (entry.len.toNat - 1) < 2 ^ 64)
    (hcount : ∀ w', w'.engine = w.engine → w'.buf.len = w.buf.len + (entry.len.toNat - 1) →
      w'.buf.instrs i = settled bodyBuf entry (w.buf.instrs i) →
      Ensures (countSite entry.inlineCost) w' Q E) :
    Ensures (expand bodyBuf i entry) w Q E := by
  have hroom : i < maxIrInstructions := hi.trans_le w.buf.len_le
  rw [expand, ensures_bind]
  refine (ensures_makeRoom hi (by omega)).mono ?_ fun _ _ h => h.elim
  rintro _ w₁ ⟨hengine₁, hlen₁, hat₁⟩
  rw [ensures_bind]
  refine (ensures_copyBody hlen).mono ?_ fun _ _ h => h.elim
  rintro _ w₂ ⟨hengine₂, hlen₂, hat₂⟩
  refine hcount w₂ (hengine₂.trans hengine₁) (hlen₂.trans hlen₁) ?_
  rw [hat₂, hat₁, settled]
  simp only [hroom, true_and]

/-- One replacement. -/
theorem ensures_expand (hi : i < w.buf.len)
    (htotal : w.buf.len + entry.len.toNat ≤ maxIrInstructions)
    (hlen : entry.start.toNat + (entry.len.toNat - 1) < 2 ^ 64)
    (hsites : w.engine.inliner.sitesInlined.toNat + 1 < 2 ^ 32)
    (hbytes : w.engine.inliner.bytesSaved.toNat + 255 < 2 ^ 32) :
    Ensures (expand bodyBuf i entry) w (fun _ w' => w'.buf.len = w.buf.len + (entry.len.toNat - 1) ∧
        w'.buf.instrs i = settled bodyBuf entry (w.buf.instrs i) ∧
        w'.engine.inliner.sitesInlined.toNat = w.engine.inliner.sitesInlined.toNat + 1 ∧
        w'.engine.inliner.bytesSaved.toNat ≤ w.engine.inliner.bytesSaved.toNat + 255) NoHalt := by
  refine ensures_expand_of hi htotal hlen fun w₁ hengine hlen₁ hat₁ => ?_
  rw [← hengine] at hsites hbytes ⊢
  refine (ensures_countSite hsites hbytes).imp_ok ?_
  rintro _ w₂ ⟨hbuf, hcounters⟩
  rw [hbuf]
  exact ⟨hlen₁, hat₁, hcounters⟩

/-- A replacement by a body of at most one instruction, if the counters do not overflow. -/
theorem ensures_expand_short (hi : i < w.buf.len)
    (htotal : w.buf.len + entry.len.toNat ≤ maxIrInstructions) (hshort : entry.len.toNat ≤ 1) :
    Ensures (expand bodyBuf i entry) w (fun _ w' => w'.buf.len = w.buf.len ∧
        w'.buf.instrs i = settled bodyBuf entry (w.buf.instrs i)) fun _ _ => True := by
  have hstart := entry.start.toNat_lt
  refine ensures_expand_of hi htotal (by omega) fun w₁ _ hlen₁ hat₁ => ?_
  have hcount : Ensures (countSite entry.inlineCost) w₁ (fun _ w' => w'.buf = w₁.buf)
      fun _ _ => True := by
    simp [countSite, addU32]
  refine hcount.imp_ok fun _ w₂ hbuf => ?_
  rw [hbuf]
  exact ⟨by omega, hat₁⟩

/-! ### Getting through -/

/-- How long the replacements at a position can go on without the program growing. -/
noncomputable def siteRank (bodyBuf : Nat → Instr) (table : FunctionTable) (instr : Instr) : Nat :=
  if instr.op = .inlineSite then Chains.rank (nextSite bodyBuf table) instr.a else 0

section

variable (h : Inlinable bodyBuf table)
include h

theorem siteRank_le (instr : Instr) : siteRank bodyBuf table instr ≤ 256 := by
  rw [siteRank]
  split
  case isTrue =>
    have hinj : Function.Injective UInt8.toFin := fun a b h => UInt8.toFin_inj.mp h
    exact Chains.rank_le_of_injective hinj (h.settles _)
  case isFalse => exact Nat.zero_le _

/-- A replacement that does not make the program longer brings the position nearer to its end. -/
theorem siteRank_settled {instr : Instr} (hop : instr.op = .inlineSite)
    (hentry : table.lookup instr.a = some entry) (hshort : entry.len.toNat ≤ 1) :
    siteRank bodyBuf table (settled bodyBuf entry instr) < siteRank bodyBuf table instr := by
  have hsettles := h.settles instr.a
  rw [siteRank, siteRank, if_pos hop]
  split
  case isFalse => exact Chains.rank_pos hsettles
  case isTrue hsite =>
    refine Chains.rank_lt_of_some ?_ hsettles
    rw [nextSite_of_short hop hentry hshort, if_pos hsite]

/-- A bound on the number of turns that are left. -/
noncomputable def turnsLeft (bodyBuf : Nat → Instr) (table : FunctionTable) (buf : IrBuffer)
    (i : Nat) : Nat :=
  ((maxIrInstructions - buf.len) + (maxIrInstructions - i)) * 257 +
    siteRank bodyBuf table (buf.instrs i) + 1

theorem turnsLeft_lt {buf buf' : IrBuffer} {i' : Nat}
    (hless : (maxIrInstructions - buf'.len) + (maxIrInstructions - i') <
      (maxIrInstructions - buf.len) + (maxIrInstructions - i)) :
    turnsLeft bodyBuf table buf' i' < turnsLeft bodyBuf table buf i := by
  have hrank := siteRank_le h (buf'.instrs i')
  rw [turnsLeft, turnsLeft]
  omega

/-- The inliner gets through every program. -/
theorem ensures_inlineLoop (hfuel : turnsLeft bodyBuf table w.buf i ≤ fuel)
    (hsites : w.engine.inliner.sitesInlined.toNat + turnsLeft bodyBuf table w.buf i < 2 ^ 32)
    (hbytes : w.engine.inliner.bytesSaved.toNat + 255 * turnsLeft bodyBuf table w.buf i < 2 ^ 32) :
    Ensures (inlineLoop bodyBuf table fuel i) w (fun _ _ => True) NoHalt := by
  induction fuel generalizing w i with
  | zero =>
    rw [turnsLeft] at hfuel
    omega
  | succ fuel ih =>
    rw [inlineLoop, ensures_bind, ensures_get, ensures_ite]
    refine ⟨fun hi => ?_, fun _ => trivial⟩
    have hmax := w.buf.len_le
    have hadvance : turnsLeft bodyBuf table w.buf (i + 1) < turnsLeft bodyBuf table w.buf i :=
      turnsLeft_lt h (by omega)
    have hnext : Ensures (inlineLoop bodyBuf table fuel (i + 1)) w (fun _ _ => True) NoHalt :=
      ih (by omega) (by omega) (by omega)
    rw [ensures_bind, ensures_fetch (hi.trans_le hmax), ensures_ite]
    refine ⟨fun _ => hnext, fun hop => ?_⟩
    rw [ne_eq, not_not] at hop
    cases hentry : table.lookup (w.buf.instrs i).a with
    | none => exact hnext
    | some entry =>
      have hlength := h.lengths _ _ hentry
      rw [ensures_bind, ensures_addUsize (by omega), ensures_ite]
      refine ⟨fun _ => hnext, fun hfits => ?_⟩
      rw [ensures_bind]
      refine (ensures_expand hi (Nat.not_lt.mp hfits) (h.indices _ _ hentry (by omega)) (by omega)
        (by omega)).imp_ok ?_
      rintro _ w₁ ⟨hlen, hat, hsites₁, hbytes₁⟩
      have hless : turnsLeft bodyBuf table w₁.buf i < turnsLeft bodyBuf table w.buf i := by
        by_cases hshort : entry.len.toNat ≤ 1
        · have hrank := siteRank_settled h hop hentry hshort
          rw [turnsLeft, turnsLeft, hat, hlen]
          omega
        · exact turnsLeft_lt h (by omega)
      exact ih (by omega) (by omega) (by omega)

end

/-! ### Getting stuck -/

/-- The program that consists of one site of a function, in an array of which `len` instructions
are used. -/
def siteOf (fnId : UInt8) (len : Nat) (hlen : len ≤ maxIrInstructions) : IrBuffer where
  instrs i := if i = 0 then ⟨0x09, fnId, 0, 0⟩ else .nop
  len := len
  len_le := hlen

theorem one_le_maxIrInstructions : 1 ≤ maxIrInstructions := by decide

/-- A turn of the inliner at a site it replaces. -/
theorem ensures_inlineLoop_site {Q : Unit → Workspace → Prop}
    (hi : i < w.buf.len) (hop : (w.buf.instrs i).op = .inlineSite)
    (hentry : table.lookup (w.buf.instrs i).a = some entry)
    (hfits : w.buf.len + entry.len.toNat ≤ maxIrInstructions)
    (hexpand : Ensures (expand bodyBuf i entry) w
      (fun _ w' => Ensures (inlineLoop bodyBuf table fuel i) w' Q E) E) :
    Ensures (inlineLoop bodyBuf table (fuel + 1) i) w Q E := by
  have hsmall : maxIrInstructions < 2 ^ 20 := by decide
  rw [inlineLoop, ensures_bind, ensures_get, if_pos hi, ensures_bind,
    ensures_fetch (hi.trans_le w.buf.len_le), if_neg (not_not.mpr hop), hentry]
  rw [ensures_bind, ensures_addUsize (by omega), if_neg (Nat.not_lt.mpr hfits), ensures_bind]
  exact hexpand

/-- A body whose length overflows stops the inliner in a full program. -/
theorem inlineLoop_stops_of_length {fnId : UInt8} (hentry : table.lookup fnId = some entry)
    (hlong : 2 ^ 64 ≤ entry.len.toNat + maxIrInstructions)
    (hbuf : w.buf = siteOf fnId maxIrInstructions le_rfl) (fuel : Nat) :
    Ensures (inlineLoop bodyBuf table fuel 0) w (fun _ _ => False) fun _ _ => True := by
  cases fuel with
  | zero => exact trivial
  | succ fuel =>
    have hlen : w.buf.len = maxIrInstructions := by rw [hbuf, siteOf]
    have hat : w.buf.instrs 0 = ⟨0x09, fnId, 0, 0⟩ := by
      rw [hbuf, siteOf]
      rfl
    have hop : (Instr.mk 0x09 fnId 0 0).op = .inlineSite := rfl
    have hpos : 0 < maxIrInstructions := by decide
    rw [inlineLoop, ensures_bind, ensures_get, if_pos (by omega), ensures_bind,
      ensures_fetch hpos, hat, if_neg (not_not.mpr hop)]
    simp only [hentry, addUsize, ensures_rules, decide_eq_true_eq, decide_eq_false_iff_not,
      ge_iff_le]
    omega

/-- A body whose indices overflow stops it in a program of one instruction. -/
theorem inlineLoop_stops_of_index {fnId : UInt8} (hentry : table.lookup fnId = some entry)
    (hshort : entry.len.toNat < maxIrInstructions)
    (hindex : 2 ^ 64 ≤ entry.start.toNat + (entry.len.toNat - 1))
    (hbuf : w.buf = siteOf fnId 1 one_le_maxIrInstructions) (fuel : Nat) :
    Ensures (inlineLoop bodyBuf table fuel 0) w (fun _ _ => False) fun _ _ => True := by
  cases fuel with
  | zero => exact trivial
  | succ fuel =>
    have hlen : w.buf.len = 1 := by rw [hbuf, siteOf]
    have hat : w.buf.instrs 0 = ⟨0x09, fnId, 0, 0⟩ := by
      rw [hbuf, siteOf]
      rfl
    have hstart := entry.start.toNat_lt
    refine ensures_inlineLoop_site (by omega) (by rw [hat]; rfl) (by rw [hat]; exact hentry)
      (by omega) ?_
    rw [expand, ensures_bind]
    refine .of_forall (fun _ w₁ => ?_) fun _ _ => trivial
    rw [ensures_bind]
    have hcopy : Ensures (copyBody bodyBuf 0 entry) w₁ (fun _ _ => False) fun _ _ => True := by
      refine ensures_forM_fails (x := entry.len.toNat - 1) (mem_range.mpr (by omega))
        fun w₂ => ?_
      rw [ensures_bind, addUsize, ensures_bind, ensures_refuse]
      refine ⟨fun _ => trivial, fun hfits => ?_⟩
      rw [decide_eq_false_iff_not] at hfits
      exact absurd hindex hfits
    exact hcopy.imp_ok (fun _ _ hfalse => absurd hfalse not_false)

/-- A function whose one-instruction bodies lead on without end keeps the inliner at its site. -/
theorem inlineLoop_stuck (fuel : Nat) (hlen : w.buf.len = 1)
    (hop : (w.buf.instrs 0).op = .inlineSite)
    (hstuck : ¬ Chains.Settles (nextSite bodyBuf table) (w.buf.instrs 0).a) :
    Ensures (inlineLoop bodyBuf table fuel 0) w (fun _ _ => False) fun _ _ => True := by
  induction fuel generalizing w with
  | zero => exact trivial
  | succ fuel ih =>
    cases hentry : table.lookup (w.buf.instrs 0).a with
    | none =>
      refine absurd (Chains.settles_of_none ?_) hstuck
      rw [nextSite, hentry]
    | some entry =>
      have hshort : entry.len.toNat ≤ 1 := by
        by_contra hlong
        refine hstuck (Chains.settles_of_none ?_)
        rw [nextSite, hentry]
        exact if_neg hlong
      have hnext : nextSite bodyBuf table _ = _ := nextSite_of_short hop hentry hshort
      have hsite : (settled bodyBuf entry (w.buf.instrs 0)).op = .inlineSite := by
        by_contra hno
        rw [if_neg hno] at hnext
        exact hstuck (Chains.settles_of_none hnext)
      rw [if_pos hsite] at hnext
      have hroom : 2 ≤ maxIrInstructions := by decide
      refine ensures_inlineLoop_site (by omega) hop hentry (by omega) ?_
      refine (ensures_expand_short (by omega) (by omega) hshort).imp_ok ?_
      rintro _ w₁ ⟨hlen₁, hat₁⟩
      refine ih (by omega) (by rw [hat₁]; exact hsite) ?_
      rw [hat₁]
      exact fun hsettles => hstuck ((Chains.settles_iff_of_some hnext).mpr hsettles)

/-- The pass around the loop, started at nesting depth zero. -/
theorem ensures_runInliner_iff
    {Q : CrucibleEngine → IrBuffer → Prop} {engine : CrucibleEngine} {buf : IrBuffer}
    (hdepth : engine.inliner.inlineDepth = 0)
    (hQ : ∀ e b d, Q { e with inliner.inlineDepth := d } b ↔ Q e b) :
    Ensures (runInliner bodyBuf table fuel) ⟨engine, buf⟩ (fun _ w' => Q w'.engine w'.buf) E ↔
      Ensures (inlineLoop bodyBuf table fuel 0)
        ⟨{ engine with inliner.inlineDepth := 1 }, buf⟩ (fun _ w' => Q w'.engine w'.buf) E := by
  rw [runInliner, ensures_bind, ensures_get, hdepth, if_pos (by decide), ensures_bind,
    ensures_modify, ensures_bind]
  simp only [ensures_modify, hQ, hdepth, Nat.zero_add]

end Inliner

/-! ## The result -/

instance : DecidablePred Short := fun _ => inferInstanceAs (Decidable (_ ≤ _))

theorem finishes_runInliner_iff (engine : CrucibleEngine) (bodyBuf : Nat → Instr)
    (table : FunctionTable) :
    (∀ buf, Finishes (runInliner bodyBuf table) ⟨{ engine with inliner := ⟨0, 0, 0⟩ }, buf⟩) ↔
      Inlinable bodyBuf table := by
  constructor
  · intro hall
    have hfalse : ∀ buf, (∀ fuel, Ensures (inlineLoop bodyBuf table fuel 0)
        ⟨{ engine with inliner := ⟨1, 0, 0⟩ }, buf⟩ (fun _ _ => False) fun _ _ => True) →
          False := by
      intro buf hstops
      refine Finishes.not_of_ensures (fun fuel => ?_) (hall buf)
      exact (ensures_runInliner_iff (Q := fun _ _ => False) rfl fun _ _ _ => Iff.rfl).mpr
        (hstops fuel)
    refine ⟨fun fnId entry hentry => ?_, fun fnId entry hentry hshort => ?_, fun fnId => ?_⟩
    · by_contra hlong
      exact hfalse _ fun fuel => inlineLoop_stops_of_length hentry (Nat.not_lt.mp hlong) rfl fuel
    · by_contra hindex
      exact hfalse _ fun fuel => inlineLoop_stops_of_index hentry hshort (Nat.not_lt.mp hindex) rfl
        fuel
    · by_contra hstuck
      exact hfalse (siteOf fnId 1 one_le_maxIrInstructions) fun fuel =>
        inlineLoop_stuck fuel rfl rfl hstuck
  · intro h buf
    obtain ⟨turns, hturns⟩ : ∃ turns, turnsLeft bodyBuf table buf 0 = turns := ⟨_, rfl⟩
    have hbound : turns ≤ 2 ^ 23 + 2 ^ 16 := by
      have := siteRank_le h (buf.instrs 0)
      rw [← hturns, turnsLeft, maxIrInstructions]
      omega
    have hloop : Ensures (inlineLoop bodyBuf table turns 0)
        ⟨{ engine with inliner := ⟨1, 0, 0⟩ }, buf⟩ (fun _ _ => True) NoHalt := by
      refine ensures_inlineLoop h hturns.le ?_ ?_
      all_goals
        simp only [hturns, UInt32.toNat_zero]
        omega
    exact Finishes.of_ensures turns
      ((ensures_runInliner_iff (Q := fun _ _ => True) rfl fun _ _ _ => Iff.rfl).mpr hloop)

theorem counting_new (engine : CrucibleEngine) (buf : IrBuffer) :
    Counting ⟨{ engine with unroller := ⟨0, 0⟩ }, buf⟩ 0 :=
  ⟨Nat.zero_le _, Nat.zero_le _⟩

theorem finishes_runUnroller_iff (engine : CrucibleEngine) (buf : IrBuffer) :
    Finishes runUnroller ⟨{ engine with unroller := ⟨0, 0⟩ }, buf⟩ ↔
      ∀ loop ∈ buf.taken, Short loop := by
  constructor
  · intro hfinishes loop hmem
    by_contra hlong
    refine Finishes.not_of_ensures (fun fuel => ?_) hfinishes
    exact unrollLoop_stops (counting_new engine buf) ⟨loop, hmem, hlong⟩
  · intro hshort
    exact Finishes.of_ensures (buf.len + 1)
      (ensures_unrollLoop (counting_new engine buf) (Nat.le_add_right _ _) hshort)

/-- **Which passes come to their end.**  On every program buffer, dead-code elimination and
compaction end without a panic.  The unroller does exactly when no loop it takes has a body longer
than its scratch array.  The inliner does on every program buffer exactly when the table is
`Inlinable`. -/
theorem passes_finish_iff (engine : CrucibleEngine) :
    (∀ bodyBuf table,
      (∀ buf, Finishes (runInliner bodyBuf table) ⟨{ engine with inliner := ⟨0, 0, 0⟩ }, buf⟩) ↔
        Inlinable bodyBuf table) ∧
    (∀ buf, Finishes runUnroller ⟨{ engine with unroller := ⟨0, 0⟩ }, buf⟩ ↔
      ∀ loop ∈ buf.taken, Short loop) ∧
    (∀ buf, Finishes runDce ⟨{ engine with dce := ⟨0, 0⟩ }, buf⟩) ∧
    ∀ buf, Finishes (fun _ => compact) ⟨engine, buf⟩ := by
  refine ⟨finishes_runInliner_iff engine, finishes_runUnroller_iff engine, fun buf => ?_,
    fun buf => ?_⟩
  · exact Finishes.of_ensures (buf.len + 1) (ensures_runDce (Nat.lt_succ_self _) rfl)
  · exact Finishes.of_ensures 0 ensures_compact

/-! ### A site that is never left, and a loop that is too long -/

/-- One function, with an empty body. -/
def emptyBody : FunctionTable := (FunctionTable.new.register ⟨0, 0, 0, 0⟩).2

/-- A loop of two turns around 257 instructions. -/
def longLoop : IrBuffer where
  instrs i := if i = 0 then ⟨0x07, 2, 0, 0⟩ else if i = 258 then ⟨0x08, 0, 0, 0⟩ else .nop
  len := 259
  len_le := by decide

theorem inliner_and_unroller_do_not_finish : ¬ Finishes (runInliner (fun _ => .nop) emptyBody)
      ⟨.new, siteOf 0 1 one_le_maxIrInstructions⟩ ∧
      ¬ Finishes runUnroller ⟨.new, longLoop⟩ := by
  refine ⟨Finishes.not_of_ensures fun fuel => ?_, Finishes.not_of_ensures fun fuel => ?_⟩
  · refine (ensures_runInliner_iff (Q := fun _ _ => False) rfl fun _ _ _ => Iff.rfl).mpr ?_
    refine inlineLoop_stuck fuel rfl rfl (Chains.not_settles_of_self ?_)
    decide +kernel
  · exact unrollLoop_stops (n := longLoop.len) ⟨Nat.zero_le _, Nat.zero_le _⟩ (by decide +kernel)

end Sisyphus.Crucible
