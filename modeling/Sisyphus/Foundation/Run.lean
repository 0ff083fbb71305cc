import Mathlib.Data.UInt
import Mathlib.Tactic

/-!
# Runs of a deterministic system

A component is a function `step : σ → ι → ω × σ` from a state and a request to an answer and the
next state.  `final` and `trace` are what a list of requests leads to, and `EveryStep P` says that
each request of the list met `P` in the state it was made in.

The rules are the only inductions over runs that a component needs: `EveryStep.invariant` and
`invariant_final` for a property of the state, `EveryStep.history` for a property that also speaks
about what was asked and answered so far, and `everyStep_iff_forall_prefix` and its companion for a
condition on the requests that is exactly what a property needs.  `EveryMoment P` is for a condition
that also looks at the past, and `everyMoment_iff` for one that is exactly what a property of
histories needs.
-/

set_option autoImplicit false

namespace Sisyphus.Run

variable {σ ι ω : Type*} (step : σ → ι → ω × σ)

/-- The state after a list of requests. -/
def final (s : σ) : List ι → σ
  | [] => s
  | r :: rest => final (step s r).2 rest

/-- The requests with their answers, oldest first. -/
def trace (s : σ) : List ι → List (ι × ω)
  | [] => []
  | r :: rest => (r, (step s r).1) :: trace (step s r).2 rest

/-- Every request of the list is made in a state in which `P` allows it. -/
def EveryStep (P : σ → ι → Prop) (s : σ) : List ι → Prop
  | [] => True
  | r :: rest => P s r ∧ EveryStep P (step s r).2 rest

/-- Whether a run is allowed can be tried out. -/
def decideEveryStep (P : σ → ι → Prop) [∀ s r, Decidable (P s r)] :
    (s : σ) → (rs : List ι) → Decidable (EveryStep step P s rs)
  | _, [] => .isTrue trivial
  | s, r :: rest =>
    have := decideEveryStep P (step s r).2 rest
    inferInstanceAs (Decidable (_ ∧ _))

instance (P : σ → ι → Prop) [∀ s r, Decidable (P s r)] (s : σ) (rs : List ι) :
    Decidable (EveryStep step P s rs) :=
  decideEveryStep step P s rs

@[simp] theorem final_append (s : σ) (rs more : List ι) :
    final step s (rs ++ more) = final step (final step s rs) more := by
  induction rs generalizing s with
  | nil => rfl
  | cons r rest ih => exact ih _

@[simp] theorem trace_append (s : σ) (rs more : List ι) :
    trace step s (rs ++ more) = trace step s rs ++ trace step (final step s rs) more := by
  induction rs generalizing s with
  | nil => rfl
  | cons r rest ih => exact congrArg ((r, (step s r).1) :: ·) (ih _)

variable {step} {P : σ → ι → Prop} {s : σ} {rs more : List ι} {I : List (ι × ω) → σ → Prop}

theorem everyStep_append : EveryStep step P s (rs ++ more) ↔
    EveryStep step P s rs ∧ EveryStep step P (final step s rs) more := by
  induction rs generalizing s with
  | nil => simp [EveryStep, final]
  | cons r rest ih => simp [EveryStep, final, ih, and_assoc]

theorem EveryStep.of_forall (h : ∀ s r, P s r) : EveryStep step P s rs := by
  induction rs generalizing s with
  | nil => trivial
  | cons r rest ih => exact ⟨h s r, ih⟩

/-- What every allowed step preserves holds at the end of every allowed run. -/
theorem EveryStep.invariant {I : σ → Prop} (hrun : EveryStep step P s rs)
    (hstep : ∀ s r, P s r → I s → I (step s r).2) (h : I s) : I (final step s rs) := by
  induction rs generalizing s with
  | nil => exact h
  | cons r rest ih => exact ih hrun.2 (hstep s r hrun.1 h)

/-- What every step preserves holds at the end of every run. -/
theorem invariant_final {I : σ → Prop} (hstep : ∀ s r, I s → I (step s r).2) (h : I s) :
    I (final step s rs) :=
  EveryStep.invariant (EveryStep.of_forall (P := fun _ _ => True) fun _ _ => trivial)
    (fun s r _ => hstep s r) h

/-- The same for a property of the state and of the history. -/
theorem EveryStep.history (hrun : EveryStep step P s rs) (past : List (ι × ω))
    (hstep : ∀ past s r, P s r → I past s → I (past ++ [(r, (step s r).1)]) (step s r).2)
    (h : I past s) : I (past ++ trace step s rs) (final step s rs) := by
  induction rs generalizing s past with
  | nil => simpa [trace, final] using h
  | cons r rest ih =>
    have := ih hrun.2 _ (hstep past s r hrun.1 h)
    simpa [trace, final] using this

/-- If `P` allows exactly the requests that keep `J`, then the runs of allowed requests are the
runs along which `J` holds all the time.  `I` is what is known of the states anyway. -/
theorem everyStep_iff_forall_prefix {I J : σ → Prop} (hI : ∀ s r, I s → I (step s r).2)
    (hJ : ∀ s r, I s → J s → (P s r ↔ J (step s r).2)) (hs : I s) (hj : J s) :
    EveryStep step P s rs ↔ ∀ pre, pre <+: rs → J (final step s pre) := by
  induction rs generalizing s with
  | nil => simp [EveryStep, final, hj]
  | cons r rest ih =>
    constructor
    · rintro ⟨hp, hrest⟩ pre hpre
      have hnext := (hJ s r hs hj).mp hp
      cases pre with
      | nil => exact hj
      | cons r' pre =>
        obtain ⟨rfl, htail⟩ := List.cons_prefix_cons.mp hpre
        exact (ih (hI s r' hs) hnext).mp hrest pre htail
    · intro h
      have hnext : J (step s r).2 := h [r] (by simp)
      refine ⟨(hJ s r hs hj).mpr hnext, (ih (hI s r hs) hnext).mpr fun pre hpre => ?_⟩
      exact h (r :: pre) (List.cons_prefix_cons.mpr ⟨rfl, hpre⟩)

/-- The same where `I` is known only as long as the requests are allowed: it goes with `J`, and a
request that is not allowed ends `J`. -/
theorem everyStep_iff_forall_prefix_of_invariant {I J : σ → Prop} (hIJ : ∀ s, I s → J s)
    (hkeep : ∀ s r, I s → P s r → I (step s r).2)
    (hbreak : ∀ s r, I s → J (step s r).2 → P s r) (hs : I s) :
    EveryStep step P s rs ↔ ∀ pre, pre <+: rs → J (final step s pre) := by
  constructor
  · rintro hrun pre ⟨rest, rfl⟩
    have hpre := (everyStep_append.mp hrun).1
    exact hIJ _ (hpre.invariant (fun s r hp hi => hkeep s r hi hp) hs)
  · intro h
    induction rs generalizing s with
    | nil => trivial
    | cons r rest ih =>
      have hp := hbreak s r hs (h [r] (by simp))
      refine ⟨hp, ih (hkeep s r hs hp) fun pre hpre => ?_⟩
      exact h (r :: pre) (List.cons_prefix_cons.mpr ⟨rfl, hpre⟩)

/-- Every request of the list is made at a moment at which `P` allows it: after that past, in that
state. -/
def EveryMoment (step : σ → ι → ω × σ) (P : List (ι × ω) → σ → ι → Prop) (past : List (ι × ω))
    (s : σ) : List ι → Prop
  | [] => True
  | r :: rest =>
    P past s r ∧ EveryMoment step P (past ++ [(r, (step s r).1)]) (step s r).2 rest

/-- If `P` allows exactly the requests that keep `J`, and `J` does not come back once it is lost,
then the runs of allowed requests are the runs whose history satisfies `J`.  `I` is what is known
of a history and the state it has led to. -/
theorem everyMoment_iff {P : List (ι × ω) → σ → ι → Prop}
    {J : List (ι × ω) → Prop} {past : List (ι × ω)}
    (hI : ∀ past s r, I past s → I (past ++ [(r, (step s r).1)]) (step s r).2)
    (hJ : ∀ past s r, I past s → J past → (P past s r ↔ J (past ++ [(r, (step s r).1)])))
    (hback : ∀ past more, J (past ++ more) → J past) (hs : I past s) (hj : J past) :
    EveryMoment step P past s rs ↔ J (past ++ trace step s rs) := by
  induction rs generalizing past s with
  | nil => simp [EveryMoment, trace, hj]
  | cons r rest ih =>
    have hsplit : past ++ trace step s (r :: rest) =
        past ++ [(r, (step s r).1)] ++ trace step (step s r).2 rest := by
      simp [trace]
    rw [EveryMoment, hsplit]
    constructor
    · rintro ⟨hp, hrest⟩
      exact (ih (hI past s r hs) ((hJ past s r hs hj).mp hp)).mp hrest
    · intro h
      have hnext := hback _ _ h
      exact ⟨(hJ past s r hs hj).mpr hnext, (ih (hI past s r hs) hnext).mpr h⟩

end Sisyphus.Run
