import Sisyphus.Foundation.Fallible
import Sisyphus.Reversible.Tape

/-!
# What an abort restores

Every recorded operation is taken back exactly by `inverse` (`undo`), up to the cells of the ring
that are not in use, so `abort` restores what was there at the last commit as long as rejected
operations have no effect.  One has: a `QueuePop` that names a value other than the oldest one is
refused when the oldest value is already gone, and nothing on the tape brings it back.

`abort_restores_iff` says that this is all that can go wrong.  For the other direction it counts:
the length of the queue, corrected by the pushes and pops on the tape, is what `abort` leaves
(`qLen_unwind`), and a refused pop lowers it by one.
-/

set_option autoImplicit false

namespace Sisyphus.Reversible

open Fallible List Run

/-! ## One operation -/

namespace RevWorld

/-- The ring is used as a queue. -/
structure WellFormed (w : RevWorld) : Prop where
  fits : w.qLen ≤ 64
  tail : w.qTail = w.qHead + (w.qLen : ZMod 64)

/-- The same world, up to the cells of the ring that are not in use. -/
structure Same (v w : RevWorld) : Prop where
  counters : v.counters = w.counters
  caps : v.caps = w.caps
  table : v.table = w.table
  qHead : v.qHead = w.qHead
  qTail : v.qTail = w.qTail
  qLen : v.qLen = w.qLen
  live : ∀ k < w.qLen, v.queue (w.qHead + (k : ZMod 64)) = w.queue (w.qHead + (k : ZMod 64))

theorem Same.refl (w : RevWorld) : Same w w := ⟨rfl, rfl, rfl, rfl, rfl, rfl, fun _ _ => rfl⟩

theorem Same.contents {v w : RevWorld} (h : Same v w) : v.contents = w.contents := by
  rw [RevWorld.contents, RevWorld.contents, h.qLen, h.qHead]
  exact map_congr_left fun k hk => h.live k (mem_range.mp hk)

theorem cast_ne {k l : Nat} (hk : k < 64) (hl : l < 64) (h : k ≠ l) : (k : ZMod 64) ≠ l := by
  rw [Ne, ZMod.natCast_eq_natCast_iff', Nat.mod_eq_of_lt hk, Nat.mod_eq_of_lt hl]
  exact h

/-- A position in the ring survives in a witness. -/
theorem cast_word (x : ZMod 64) : ((UInt64.ofNat x.val).toNat : ZMod 64) = x := by
  have hlt := ZMod.val_lt x
  rw [UInt64.toNat_ofNat', Nat.mod_eq_of_lt (by omega), ZMod.natCast_zmod_val]

variable {w w' : RevWorld} {step : RevStep} {witness : Witness}

/-- A world with other counters, capabilities or table than `w` is as well formed as `w`. -/
theorem WellFormed.of_queue (h : w.WellFormed) (hhead : w'.qHead = w.qHead)
    (htail : w'.qTail = w.qTail) (hlen : w'.qLen = w.qLen) : w'.WellFormed :=
  ⟨hlen ▸ h.fits, by rw [hhead, htail, hlen, h.tail]⟩

/-- **What was done is undone.** -/
theorem undo (hw : w.WellFormed) (h : w.forward step = (.ok witness, w')) :
    w'.WellFormed ∧ ∀ v, Same v w' → ∃ v', v.inverse { step with witness } = (.ok (), v') ∧
      Same v' w := by
  obtain ⟨op, target, arg0, old⟩ := step
  cases op with
  | counterAdd =>
    obtain ⟨-, ⟨⟩⟩ := ite_error_prod_eq_ok.mp h
    refine ⟨hw.of_queue rfl rfl rfl, fun v hv => ⟨_, rfl, ?_, hv.2, hv.3, hv.4, hv.5, hv.6, hv.7⟩⟩
    simp [hv.counters]
  | capOr | capAndNot =>
    obtain ⟨-, ⟨⟩⟩ := ite_error_prod_eq_ok.mp h
    refine ⟨hw.of_queue rfl rfl rfl, fun v hv => ⟨_, rfl, hv.1, ?_, hv.3, hv.4, hv.5, hv.6, hv.7⟩⟩
    simp [hv.caps]
  | tableInstall =>
    obtain ⟨hfree, ⟨⟩⟩ := ite_error_prod_eq_ok.mp h
    rw [not_or, not_not] at hfree
    refine ⟨hw.of_queue rfl rfl rfl, fun v hv => ?_⟩
    have hinstalled : v.table target.toNat = arg0 := by simp [hv.table]
    refine ⟨_, if_neg (not_not.mpr hinstalled), hv.1, hv.2, ?_, hv.4, hv.5, hv.6, hv.7⟩
    simp [hv.table, ← hfree.2]
  | tableClear =>
    obtain ⟨-, h⟩ := ite_error_prod_eq_ok.mp h
    obtain ⟨-, ⟨⟩⟩ := ite_error_prod_eq_ok.mp h
    refine ⟨hw.of_queue rfl rfl rfl, fun v hv => ⟨_, rfl, hv.1, hv.2, ?_, hv.4, hv.5, hv.6, hv.7⟩⟩
    simp [hv.table]
  | queuePush =>
    obtain ⟨hroom, ⟨⟩⟩ := ite_error_prod_eq_ok.mp h
    refine ⟨⟨by dsimp only; omega, ?_⟩, fun v hv => ?_⟩
    · simp only [hw.tail, Nat.cast_add, Nat.cast_one, add_assoc]
    · have hlen : v.qLen = w.qLen + 1 := hv.qLen
      refine ⟨_, if_neg (by omega), hv.1, hv.2, hv.3, hv.4, cast_word _, by simp [hlen],
        fun k hk => ?_⟩
      -- the cell written is the one behind the last in use
      have hcell : w.qHead + (k : ZMod 64) ≠ w.qTail := by
        rw [hw.tail]
        exact fun heq => cast_ne (by omega) (by omega) hk.ne (add_left_cancel heq)
      exact (hv.live k (Nat.lt_succ_of_lt hk)).trans (Function.update_of_ne hcell ..)
  | queuePop =>
    obtain ⟨hsome, h⟩ := ite_error_prod_eq_ok.mp h
    obtain ⟨-, ⟨⟩⟩ := ite_error_prod_eq_ok.mp h
    have hfits := hw.fits
    refine ⟨⟨by dsimp only; omega, ?_⟩, fun v hv => ?_⟩
    · obtain ⟨l, hl⟩ := Nat.exists_eq_succ_of_ne_zero hsome
      simp only [hw.tail, hl, Nat.succ_eq_add_one, Nat.add_sub_cancel, Nat.cast_add, Nat.cast_one]
      ring
    · have hlen : v.qLen = w.qLen - 1 := hv.qLen
      refine ⟨_, rfl, hv.1, hv.2, hv.3, cast_word _, hv.5, by simp only [hlen]; omega,
        fun k hk => ?_⟩
      simp only [cast_word, UInt32.toUInt32_toUInt64]
      rcases Nat.eq_zero_or_pos k with rfl | hpos
      · simp
      · have hcell : w.qHead + (k : ZMod 64) ≠ w.qHead := by
          intro heq
          refine cast_ne (k := k) (l := 0) (by omega) (by omega) (by omega) ?_
          simpa using heq
        obtain ⟨l, rfl⟩ := Nat.exists_eq_succ_of_ne_zero hpos.ne'
        have hsame := hv.live l (by dsimp only; omega)
        rw [Function.update_of_ne hcell]
        simpa [add_assoc, add_comm (1 : ZMod 64)] using hsame

/-- A pop that names another value than the oldest one. -/
def Refuses (w : RevWorld) (step : RevStep) : Prop :=
  step.op = .queuePop ∧ w.qLen ≠ 0 ∧ step.arg0 ≠ 0 ∧ step.arg0 ≠ (w.queue w.qHead).toUInt64

end RevWorld

/-- What an operation does to the length of the queue. -/
def MutOp.delta : MutOp → Int
  | .queuePush => 1
  | .queuePop => -1
  | _ => 0

namespace RevWorld

variable {w w' : RevWorld} {step : RevStep}

/-- **What an operation does**: it succeeds, fails without effect, or is a pop that fails and takes
the value all the same. -/
theorem forward_cases (w : RevWorld) (step : RevStep) :
    (¬w.Refuses step ∧ ∃ witness w', w.forward step = (.ok witness, w') ∧
        (w'.qLen : Int) = w.qLen + step.op.delta) ∨
      (¬w.Refuses step ∧ ∃ fault, w.forward step = (.error fault, w)) ∨
      (w.Refuses step ∧ ∃ fault w', w.forward step = (.error fault, w') ∧
        (w'.qLen : Int) = w.qLen - 1) := by
  obtain ⟨op, target, arg0, old⟩ := step
  have hother : op ≠ .queuePop → ¬w.Refuses ⟨op, target, arg0, old⟩ := fun hop h => hop h.1
  cases op with
  | counterAdd | capOr | capAndNot | tableInstall | tableClear | queuePush =>
    simp only [forward, changeCap]
    split_ifs
    all_goals first
      | exact .inr (.inl ⟨hother (by decide), _, rfl⟩)
      | exact .inl ⟨hother (by decide), _, _, rfl, by simp [MutOp.delta]⟩
  | queuePop =>
    simp only [forward]
    split_ifs with hempty hother
    · exact .inr (.inl ⟨fun h => h.2.1 hempty, _, rfl⟩)
    · exact .inr (.inr ⟨⟨rfl, hempty, hother⟩, _, _, rfl, by dsimp only; omega⟩)
    · refine .inl ⟨fun h => hother h.2.2, _, _, rfl, ?_⟩
      simp only [MutOp.delta]
      omega

theorem qLen_inverse (h : w.inverse step = (.ok (), w')) :
    (w'.qLen : Int) = w.qLen - step.op.delta := by
  obtain ⟨op, target, arg0, old⟩ := step
  cases op with
  | counterAdd | capOr | capAndNot | tableClear | queuePop =>
    simp only [inverse, Prod.mk.injEq, true_and] at h
    subst h
    simp [MutOp.delta]
  | tableInstall | queuePush =>
    simp only [inverse] at h
    split_ifs at h
    · cases h
    · cases h
      simp only [MutOp.delta]
      omega

end RevWorld

open RevWorld

/-! ## Whole sessions -/

/-- The length of the queue when all that is on the tape is taken back. -/
def owed (steps : List RevStep) (w : RevWorld) : Int :=
  w.qLen - (steps.map fun step => step.op.delta).sum

theorem qLen_unwind {steps left : List RevStep} {w w' : RevWorld}
    (h : unwind steps w = (.ok (), left, w')) : (w'.qLen : Int) = owed steps w := by
  induction steps generalizing w with
  | nil =>
    cases h
    simp [owed]
  | cons step rest ih =>
    rw [unwind] at h
    split at h
    · cases h
    · next v hv =>
      have hlen := qLen_inverse hv
      rw [ih h, owed, owed, map_cons, sum_cons]
      omega

namespace Session

/-- The queue loses its oldest value to a step that is rejected. -/
def Loses (s : Session) (step : RevStep) : Prop :=
  s.tape.isSealed = false ∧ s.tape.steps.length < tapeCap ∧ s.world.Refuses step

/-- **One call of `apply`.** -/
theorem apply_cases (s : Session) (step : RevStep) : (¬s.Loses step ∧ (s.apply step).2 = s) ∨
      (¬s.Loses step ∧ ∃ witness w', s.world.forward step = (.ok witness, w') ∧
        (s.apply step).2 = ⟨{ s.tape with steps := { step with witness } :: s.tape.steps }, w'⟩ ∧
        (w'.qLen : Int) = s.world.qLen + step.op.delta) ∨
      (s.Loses step ∧ ∃ w', (s.apply step).2 = ⟨s.tape, w'⟩ ∧
        (w'.qLen : Int) = s.world.qLen - 1) := by
  rw [apply]
  split_ifs with hsealed hfull
  · exact .inl ⟨fun h => by simp [h.1] at hsealed, rfl⟩
  · exact .inl ⟨fun h => absurd h.2.1 (Nat.not_lt.mpr hfull), rfl⟩
  · rcases forward_cases s.world step with ⟨hno, wit, w', hok, hlen⟩ | ⟨hno, fault, hfail⟩ |
      ⟨hyes, fault, w', hfail, hlen⟩
    · exact .inr (.inl ⟨fun h => hno h.2.2, wit, w', hok, by rw [hok]; rfl, hlen⟩)
    · exact .inl ⟨fun h => hno h.2.2, by rw [hfail]; rfl⟩
    · refine .inr (.inr ⟨⟨by simpa using hsealed, Nat.not_le.mp hfull, hyes⟩, w', ?_, hlen⟩)
      rw [hfail]
      rfl

/-- The tape leads back to `w`, from the world of the session and from every one like it. -/
structure LeadsBack (w : RevWorld) (s : Session) : Prop where
  wellFormed : s.world.WellFormed
  notSealed : s.tape.isSealed = false
  back : ∀ v, Same v s.world → ∃ v', unwind s.tape.steps v = (.ok (), [], v') ∧ Same v' w

theorem LeadsBack.apply {w : RevWorld} {s : Session} (h : LeadsBack w s) {step : RevStep}
    (hkeeps : ¬s.Loses step) : LeadsBack w (s.apply step).2 := by
  rcases apply_cases s step with ⟨-, hsame⟩ | ⟨-, wit, w', hok, happly, -⟩ | ⟨hloses, -⟩
  · rwa [hsame]
  · rw [happly]
    obtain ⟨hwell, hundo⟩ := undo h.wellFormed hok
    refine ⟨hwell, h.notSealed, fun v hv => ?_⟩
    obtain ⟨u, hu, hsame⟩ := hundo v hv
    rw [unwind, hu]
    exact h.back u hsame
  · exact absurd hloses hkeeps

/-- What is owed to the queue never grows, and a lost value is owed for ever. -/
theorem owed_final {s : Session} (steps : List RevStep) :
    let t := final Session.apply s steps
    owed t.tape.steps t.world ≤ owed s.tape.steps s.world ∧
      (¬EveryStep Session.apply (fun s step => ¬s.Loses step) s steps →
        owed t.tape.steps t.world < owed s.tape.steps s.world) := by
  induction steps generalizing s with
  | nil => exact ⟨le_rfl, fun h => absurd trivial h⟩
  | cons step rest ih =>
    obtain ⟨hle, hlt⟩ := ih (s := (s.apply step).2)
    have howed : owed (s.apply step).2.tape.steps (s.apply step).2.world ≤
        owed s.tape.steps s.world ∧
        (s.Loses step → owed (s.apply step).2.tape.steps (s.apply step).2.world <
          owed s.tape.steps s.world) := by
      rcases apply_cases s step with ⟨hno, hsame⟩ | ⟨hno, wit, w', -, happly, hlen⟩ |
        ⟨-, w', happly, hlen⟩
      · exact ⟨by rw [hsame], fun h => absurd h hno⟩
      · refine ⟨?_, fun h => absurd h hno⟩
        rw [happly]
        simp only [owed, map_cons, sum_cons]
        omega
      · rw [happly]
        simp only [owed]
        omega
    refine ⟨hle.trans howed.1, fun hnot => ?_⟩
    by_cases hloses : s.Loses step
    · exact hle.trans_lt (howed.2 hloses)
    · exact (hlt fun hrest => hnot ⟨hloses, hrest⟩).trans_le howed.1

/-- `abort` succeeds and leaves the counters, capabilities, table and FIFO of `w`. -/
def Restores (w : RevWorld) (s : Session) : Prop :=
  ∃ t, s.abort = (.ok (), t) ∧ t.world.counters = w.counters ∧ t.world.caps = w.caps ∧
    t.world.table = w.table ∧ t.world.contents = w.contents

/-- **An abort restores the world of the last commit** exactly when no pop since then was refused
for its value. -/
theorem abort_restores_iff {w : RevWorld} (hw : w.WellFormed) (tape : RevTape)
    (steps : List RevStep) :
    Restores w (final Session.apply ⟨tape.commit, w⟩ steps) ↔
      EveryStep Session.apply (fun s step => ¬s.Loses step) ⟨tape.commit, w⟩ steps := by
  have hstart : LeadsBack w ⟨tape.commit, w⟩ := ⟨hw, rfl, fun v hv => ⟨v, rfl, hv⟩⟩
  constructor
  · rintro ⟨t, habort, -, -, -, hcontents⟩
    by_contra hloses
    have hlen : t.world.qLen = w.qLen := by
      simpa [RevWorld.contents] using congrArg List.length hcontents
    have hlt := (owed_final (s := ⟨tape.commit, w⟩) steps).2 hloses
    have howed : owed tape.commit.steps w = w.qLen := by simp [owed, RevTape.commit]
    rw [abort] at habort
    split_ifs at habort
    · cases habort
    rcases hunwind : unwind (final Session.apply ⟨tape.commit, w⟩ steps).tape.steps
      (final Session.apply ⟨tape.commit, w⟩ steps).world with ⟨result, left, w'⟩
    rw [hunwind] at habort
    cases habort
    have hback := qLen_unwind hunwind
    dsimp only at hlen hlt
    omega
  · intro hkeeps
    have hend := hkeeps.invariant (fun s step hstep hs => LeadsBack.apply hs hstep) hstart
    obtain ⟨v, hunwind, hsame⟩ := hend.back _ (Same.refl _)
    refine ⟨⟨{ (final Session.apply ⟨tape.commit, w⟩ steps).tape with steps := [] }, v⟩, ?_,
      hsame.counters, hsame.caps, hsame.table, hsame.contents⟩
    rw [abort, hend.notSealed, hunwind]
    rfl

/-! ### Two sessions -/

def pushStep (value : UInt64) : RevStep := ⟨.queuePush, 0, value, ⟨0, 0⟩⟩

def popStep (value : UInt64) : RevStep := ⟨.queuePop, 0, value, ⟨0, 0⟩⟩

def freshSession : Session := ⟨(⟨[], false, 0⟩ : RevTape).commit, RevWorld.new⟩

/-- A push and a pop that is rejected: the abort fails, and the push stays on the tape. -/
theorem rejected_pop_breaks_abort :
    ((final Session.apply freshSession [pushStep 7]).apply (popStep 8)).1 = .error .badWitness ∧
      ¬Restores RevWorld.new (final Session.apply freshSession [pushStep 7, popStep 8]) := by
  refine ⟨rfl, ?_⟩
  rintro ⟨t, habort, -⟩
  have hfails : (final Session.apply freshSession [pushStep 7, popStep 8]).abort.1 =
      .error .brokenInverse := rfl
  rw [habort] at hfails
  cases hfails

theorem wellFormed_new : RevWorld.new.WellFormed := ⟨by decide, by decide⟩

theorem accepted_pop_restored : RevWorld.new.WellFormed ∧
    Restores RevWorld.new (final Session.apply freshSession [pushStep 7, popStep 7]) := by
  refine ⟨wellFormed_new, (abort_restores_iff wellFormed_new _ _).mpr ⟨?_, ?_, trivial⟩⟩
  · exact fun h => by cases h.2.2.1
  · exact fun h => h.2.2.2.2.2 rfl

end Session

end Sisyphus.Reversible
