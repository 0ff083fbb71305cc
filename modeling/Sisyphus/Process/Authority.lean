import Sisyphus.Process.Registry

/-!
# Who may return to user mode

The architecture takes the last step to user mode with an `AuthorizedUserReturn` in its hand, and
asks `authorize_user_return` whether it may.  Each scheduling decision hands out one such value.
The registry remembers no list of them: it compares what it is shown with what the running slot
and the epoch say now.

`lastAuthority` is the specification, a history variable: the value handed out by the last
decision, and nothing once the idle context was chosen.  `Remembers` says how the table encodes
it, and `accepts_iff_lastAuthority` that the two agree in every reachable state.
-/

set_option autoImplicit false

namespace Sisyphus.Lifecycle

open Fallible Function ProcessSlot ProcessTable

/-! ## The specification -/

/-- The authority that stands after an outcome, when `last` stood before it. -/
def Outcome.authority (last : Option AuthorizedUserReturn) : Outcome → Option AuthorizedUserReturn
  | .user a => some a
  | .pid0 => none
  | _ => last

/-- The outcome is a decision about who executes next. -/
def Outcome.decides : Outcome → Bool
  | .user _ => true
  | .pid0 => true
  | _ => false

/-- The authority handed out by the last decision of a run. -/
def lastAuthority (last : Option AuthorizedUserReturn) (s : State) :
    List Call → Option AuthorizedUserReturn
  | [] => last
  | c :: rest => lastAuthority ((c.outcome s).authority last) (c.perform s).2 rest

/-- `authorize_user_return` lets `a` through. -/
def Accepts (s : State) (a : AuthorizedUserReturn) : Prop :=
  ∃ p, authorizeUserReturn a s = .ok p s ∧ p.authorizedReturn = a

/-- The process that `a` is for is running. -/
def IsRunningFor (s : State) (a : AuthorizedUserReturn) : Prop :=
  ∃ i, (s.table.slots i).isRunning = true ∧
    (s.table.slots i).handle = ⟨a.pid, a.generation⟩

/-! ## What the table remembers -/

/-- How the table encodes the last authority. -/
structure Remembers (last : Option AuthorizedUserReturn) (s : State) : Prop where
  /-- A running slot runs on that authority. -/
  running : ∀ k, (s.table.slots k).isRunning = true → last = some (s.expected k)
  /-- It carries the current epoch, which is not the initial one. -/
  epoch : ∀ a ∈ last, a.schedulerEpoch = s.table.schedulerEpoch ∧ a.schedulerEpoch ≠ 0

theorem Remembers.new : Remembers none .new := by
  refine ⟨fun k h => ?_, by simp⟩
  simp [State.new, ProcessTable.new, empty, isRunning] at h

variable {last : Option AuthorizedUserReturn}

section Steps

variable {s t : State} {o : Outcome}

/-- Every decision moves the epoch, and nothing else does. -/
theorem Change.epoch (hc : Change s o t) :
    if o.decides then s.table.schedulerEpoch.toNat < t.table.schedulerEpoch.toNat
    else t.table.schedulerEpoch = s.table.schedulerEpoch := by
  cases hc with
  | resume i saved epoch running valid next | switch i j saved epoch running runnable valid next
  | reselect i saved epoch running valid next | start j epoch idle alone runnable next
  | idleAgain epoch idle alone next | exitTo i j exitCode epoch running runnable next
  | exitIdle i exitCode epoch running next =>
    exact Nat.lt_of_lt_of_eq (Nat.lt_succ_self _) (nextSchedulerEpoch_toNat next).symm
  | _ => rfl

theorem Change.epoch_mono (hc : Change s o t) :
    s.table.schedulerEpoch.toNat ≤ t.table.schedulerEpoch.toNat := by
  have h := hc.epoch
  split at h
  · exact h.le
  · rw [h]

/-- No slot runs once the idle context is chosen. -/
theorem Change.pid0_idle (hc : Change s .pid0 t) (h : Consistent s) (k : SlotIndex) :
    (t.table.slots k).isRunning = false := by
  cases hc with
  | idleAgain epoch idle alone next => exact alone k
  | exitIdle i exitCode epoch running next => exact h.sole.stopped h.wellFormed running (by simp) k

/-- Without a decision, whatever runs is left alone. -/
theorem Change.keep_slot (hc : Change s o t) (ho : o.decides = false) {k : SlotIndex}
    (hk : (t.table.slots k).isRunning = true) : t.table.slots k = s.table.slots k := by
  have hreplaced : ∀ {i : SlotIndex} {slot : ProcessSlot}, slot.isRunning = false →
      (update s.table.slots i slot k).isRunning = true →
      update s.table.slots i slot k = s.table.slots k := by
    intro i slot hslot hk
    have hki : k ≠ i := by
      rintro rfl
      simp [hslot] at hk
    exact update_of_ne hki ..
  cases hc with
  | refused => rfl
  | register i launch free fresh valid
  | commit i pid parent launch free drawn valid => exact hreplaced rfl hk
  | uncommitted nextPid drawn => rfl
  | pause i phase before occupied after =>
    refine hreplaced ?_ hk
    rcases after with rfl | rfl <;> simp [isRunning]
  | reap i occupied zombie => exact hreplaced rfl hk
  | publish i running => rfl
  | _ => cases ho

theorem Change.remembers (hc : Change s o t)
    (hs : Consistent s) (h : Remembers last s) : Remembers (o.authority last) t := by
  have ht := hc.consistent hs
  have hepoch := hc.epoch
  have hkeep : o.decides = false → Remembers last t := by
    intro ho
    replace hepoch : t.table.schedulerEpoch = s.table.schedulerEpoch := by simpa [ho] using hepoch
    refine ⟨fun k hk => ?_, fun a ha => ?_⟩
    · have hslot := hc.keep_slot ho hk
      have hsame : t.expected k = s.expected k := by
        simp only [State.expected, scheduled, hslot, hepoch]
      rw [hsame]
      exact h.running k (hslot ▸ hk)
    · rw [hepoch]
      exact h.epoch a ha
  cases o with
  | user a =>
    obtain ⟨j, hj, rfl, -⟩ := hc.user_running hs.sole
    refine ⟨fun k hk => ?_, fun a ha => ?_⟩
    · rw [ht.sole.unique ht.wellFormed hk hj]
      rfl
    · obtain rfl := Option.some.inj ha
      refine ⟨rfl, fun h0 => ?_⟩
      change t.table.schedulerEpoch = 0 at h0
      rw [h0] at hepoch
      simp [Outcome.decides] at hepoch
  | pid0 =>
    refine ⟨fun k hk => ?_, by simp [Outcome.authority]⟩
    rw [hc.pid0_idle hs k] at hk
    cases hk
  | keep | issued handle | uncommitted | paused handle => exact hkeep rfl

end Steps

theorem Remembers.run {s : State} (hs : Consistent s) (h : Remembers last s) (calls : List Call) :
    Remembers (lastAuthority last s calls) (Lifecycle.run s calls) := by
  induction calls generalizing last s with
  | nil => exact h
  | cons c rest ih =>
    have hc := c.perform_change s
    exact ih (hc.consistent hs) (hc.remembers hs h)

/-! ## What `authorize_user_return` accepts -/

section Accepts

variable {s : State} {a : AuthorizedUserReturn}

theorem accepts_iff_expected (h : Consistent s) (hepoch : s.table.schedulerEpoch ≠ 0) :
    Accepts s a ↔ ∃ i, (s.table.slots i).isRunning = true ∧ a = s.expected i := by
  constructor
  · rintro ⟨p, hp, rfl⟩
    simp only [authorizeUserReturn, bind_validContext_eq_ok, bind_get, bind_refuse_eq_ok,
      bind_runningIndex_eq_ok, pure_apply, EStateM.Result.ok.injEq, bne_eq_false_iff_eq] at hp
    obtain ⟨-, -, i, hi, hphase, hsame, -⟩ := hp
    exact ⟨i, isRunning_of_indexByHandle hi hphase, hsame.symm⟩
  · rintro ⟨i, hi, rfl⟩
    obtain ⟨hocc, hphase⟩ := isRunning_iff.mp hi
    have hok := h.wellFormed.slot i
    have hcurrent : currentHandle s = some (s.table.slots i).handle := by
      rw [currentHandle, h.sole i hi]
      exact ProcessHandle.decode_encode (hok.pid hocc) hok.generation
    have hvalid : (s.expected i).validate = .ok () :=
      AuthorizedUserReturn.validate_eq_ok (hok.pid hocc) hok.generation hepoch
        (scheduled_validate s.table.schedulerEpoch (hok.launch hocc) (hok.context hocc))
    have hindex := indexByHandle_of_occupied h.wellFormed hocc
    refine ⟨s.table.scheduled i (s.table.slots i).context s.table.schedulerEpoch, ?_, rfl⟩
    simp only [authorizeUserReturn, bind_validContext_eq_ok, bind_get, bind_refuse_eq_ok,
      bind_runningIndex_eq_ok, pure_apply, EStateM.Result.ok.injEq, bne_eq_false_iff_eq,
      Bool.or_eq_false_iff]
    exact ⟨hvalid, ⟨hcurrent, rfl⟩, i, hindex, hphase, rfl, rfl, trivial⟩

theorem Accepts.epoch (h : Accepts s a) : s.table.schedulerEpoch = a.schedulerEpoch := by
  obtain ⟨p, hp, -⟩ := h
  simp only [authorizeUserReturn, bind_validContext_eq_ok, bind_get, bind_refuse_eq_ok,
    Bool.or_eq_false_iff, bne_eq_false_iff_eq] at hp
  exact hp.2.1.2

/-- An authority with a zero epoch does not even validate. -/
theorem Accepts.epoch_ne_zero (h : Accepts s a) : a.schedulerEpoch ≠ 0 := by
  obtain ⟨p, hp, -⟩ := h
  simp only [authorizeUserReturn, bind_validContext_eq_ok, AuthorizedUserReturn.validate] at hp
  intro h0
  simp [h0] at hp

/-- Where the table remembers the last authority, that is the one it accepts. -/
theorem accepts_iff_of_remembers (hs : Consistent s)
    (h : Remembers last s) : Accepts s a ↔ last = some a ∧ IsRunningFor s a := by
  constructor
  · intro ha
    have hepoch : s.table.schedulerEpoch ≠ 0 := ha.epoch ▸ ha.epoch_ne_zero
    obtain ⟨i, hi, rfl⟩ := (accepts_iff_expected hs hepoch).mp ha
    exact ⟨h.running i hi, i, hi, rfl⟩
  · rintro ⟨rfl, i, hi, -⟩
    obtain ⟨hepoch, hne⟩ := h.epoch a rfl
    rw [hepoch] at hne
    exact (accepts_iff_expected hs hne).mpr ⟨i, hi, Option.some.inj (h.running i hi)⟩

end Accepts

theorem epoch_le_run (s : State) (calls : List Call) :
    s.table.schedulerEpoch.toNat ≤ (run s calls).table.schedulerEpoch.toNat := by
  induction calls generalizing s with
  | nil => exact le_rfl
  | cons c rest ih => exact (c.perform_change s).epoch_mono.trans (ih _)

/-- **`authorize_user_return` accepts the authority of the last decision, while its process is
the running one, and nothing else; once another decision is made it is never accepted again.** -/
theorem accepts_iff_lastAuthority (calls : List Call) (a : AuthorizedUserReturn) :
    (Accepts (run .new calls) a ↔
      lastAuthority none .new calls = some a ∧ IsRunningFor (run .new calls) a) ∧
    ∀ before c after, calls = before ++ c :: after → lastAuthority none .new before = some a →
      (c.outcome (run .new before)).decides = true → ¬Accepts (run .new calls) a := by
  have hs := Consistent.new.run
  have hm := Remembers.new.run Consistent.new
  refine ⟨accepts_iff_of_remembers (hs calls) (hm calls), ?_⟩
  rintro before c after rfl hlast hdecides haccepts
  -- the epoch of `a` is left behind by `c`, and the table's epoch never goes back
  have hbefore := ((hm before).epoch a hlast).1
  have hstep := (c.perform_change (run .new before)).epoch
  rw [if_pos hdecides] at hstep
  have hafter := epoch_le_run (c.perform (run .new before)).2 after
  have hrun : run .new (before ++ c :: after) = run (c.perform (run .new before)).2 after :=
    Run.final_append ..
  have hnow := haccepts.epoch
  rw [hrun] at hnow
  rw [hnow, hbefore] at hafter
  exact absurd hstep (by omega)

/-- Init is started and makes a system call: the return it was started with is no longer good. -/
theorem resumeCurrent_supersedes_markRunning :
    ¬Accepts (run .new [.registerInit sampleLaunch, .markRunning ⟨1, 1⟩,
        .resumeCurrent (.initial 0x2000 0x8000)])
      ⟨⟨.initial 0x2000 0x8000, 0x1000, 0xffff800000000000⟩, 1, 1, 1⟩ :=
  (accepts_iff_lastAuthority _ _).2 [.registerInit sampleLaunch, .markRunning ⟨1, 1⟩]
    (.resumeCurrent (.initial 0x2000 0x8000)) [] rfl (by decide +kernel) (by decide +kernel)

end Sisyphus.Lifecycle
