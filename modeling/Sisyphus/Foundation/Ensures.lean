import Sisyphus.Foundation.Fallible

/-!
# Postconditions of fallible actions

`Ensures x s Q E` says that the action `x`, started in `s`, ends in a value that satisfies `Q` or
in an error that satisfies `E`, together with the state it leaves.  Read as a function of `s` it
is the weakest precondition of `x`.

The inversion lemmas of `Sisyphus.Foundation.Fallible` are for short functions with few ways to
end.  A function that makes many fallible calls is better followed forwards: `ensures_bind` and
its companions rewrite the judgement on a composite action into one on its first call, and
`Ensures.mono` puts a specification of that call to use.
-/

set_option autoImplicit false

namespace Sisyphus.Fallible

open List

variable {ε ε' σ τ α β : Type}

/-- From `s`, `x` ends in a value with `Q` or in an error with `E`. -/
def Ensures (x : EStateM ε σ α) (s : σ) (Q : α → σ → Prop) (E : ε → σ → Prop) : Prop :=
  match x s with
  | .ok a t => Q a t
  | .error e t => E e t

/-- Runs an action on a part of the state, and hands its `Result` to a `match`. -/
def within (part : σ → τ) (put : τ → σ → σ) (x : EStateM ε τ α) :
    EStateM ε' σ (Except ε α) := fun s =>
  match x (part s) with
  | .ok a t => .ok (.ok a) (put t s)
  | .error e t => .ok (.error e) (put t s)

section Rules

variable {s : σ} {Q Q' : α → σ → Prop} {E E' : ε → σ → Prop} {R : β → σ → Prop}

variable {x : EStateM ε σ α}

theorem Ensures.mono (h : Ensures x s Q E) (hQ : ∀ a t, Q a t → Q' a t)
    (hE : ∀ e t, E e t → E' e t) : Ensures x s Q' E' := by
  rw [Ensures] at h ⊢
  cases hx : x s with
  | ok a t => exact hQ a t (by simpa only [hx] using h)
  | error e t => exact hE e t (by simpa only [hx] using h)

theorem Ensures.imp_ok (h : Ensures x s Q E) (hQ : ∀ a t, Q a t → Q' a t) : Ensures x s Q' E :=
  h.mono hQ fun _ _ h => h

theorem Ensures.imp_error (h : Ensures x s Q E) (hE : ∀ e t, E e t → E' e t) : Ensures x s Q E' :=
  h.mono (fun _ _ h => h) hE

/-- An action ensures what it does. -/
theorem Ensures.self (x : EStateM ε σ α) (s : σ) :
    Ensures x s (fun a t => x s = .ok a t) fun e t => x s = .error e t := by
  rw [Ensures]
  cases hx : x s with
  | ok a t | error e t => rfl

/-- Nothing needs to be known of the action when every ending will do. -/
theorem Ensures.of_forall (hQ : ∀ a t, Q a t) (hE : ∀ e t, E e t) : Ensures x s Q E := by
  rw [Ensures]
  cases x s with
  | ok a t => exact hQ a t
  | error e t => exact hE e t

theorem Ensures.and (h : Ensures x s Q E) (h' : Ensures x s Q' E') :
    Ensures x s (fun a t => Q a t ∧ Q' a t) (fun e t => E e t ∧ E' e t) := by
  rw [Ensures] at h h' ⊢
  cases hx : x s with
  | ok a t | error e t => exact ⟨by simpa only [hx] using h, by simpa only [hx] using h'⟩

variable {a : α} {t : σ}

theorem Ensures.of_ok (h : Ensures x s Q E) (hx : x s = .ok a t) : Q a t := by
  simpa only [Ensures, hx] using h

variable {e : ε}

theorem Ensures.of_error (h : Ensures x s Q E) (hx : x s = .error e t) : E e t := by
  simpa only [Ensures, hx] using h

theorem Ensures.cases (h : Ensures x s Q E) :
    (∃ a t, x s = .ok a t ∧ Q a t) ∨ ∃ e t, x s = .error e t ∧ E e t := by
  cases hx : x s with
  | ok a t => exact .inl ⟨a, t, rfl, h.of_ok hx⟩
  | error e t => exact .inr ⟨e, t, rfl, h.of_error hx⟩

@[simp] theorem ensures_bind {f : α → EStateM ε σ β} :
    Ensures (x >>= f) s R E ↔ Ensures x s (fun a t => Ensures (f a) t R E) E := by
  rw [Ensures, bind_apply, Ensures]
  cases x s <;> rfl

@[simp] theorem ensures_map {f : α → β} :
    Ensures (f <$> x) s R E ↔ Ensures x s (fun a t => R (f a) t) E := by
  rw [map_eq_pure_bind, ensures_bind]
  rfl

variable {R : PUnit → σ → Prop}

@[simp] theorem ensures_discard :
    Ensures (discard x) s R E ↔ Ensures x s (fun _ t => R ⟨⟩ t) E :=
  ensures_map (f := fun _ => PUnit.unit)

@[simp] theorem ensures_pure : Ensures (pure a) s Q E ↔ Q a s := Iff.rfl

@[simp] theorem ensures_throw : Ensures (throw e : EStateM ε σ α) s Q E ↔ E e s := Iff.rfl

@[simp] theorem ensures_get {R : σ → σ → Prop} :
    Ensures (get : EStateM ε σ σ) s R E ↔ R s s := Iff.rfl

@[simp] theorem ensures_set :
    Ensures (set t : EStateM ε σ PUnit) s R E ↔ R ⟨⟩ t := Iff.rfl

@[simp] theorem ensures_modify {f : σ → σ} :
    Ensures (modify f : EStateM ε σ PUnit) s R E ↔ R ⟨⟩ (f s) := Iff.rfl

@[simp] theorem ensures_refuse {c : Bool} {R : Unit → σ → Prop} :
    Ensures (refuse c e) s R E ↔ (c = true → E e s) ∧ (c = false → R () s) := by
  cases c <;> simp [refuse]

@[simp] theorem ensures_orThrow {o : Option α} :
    Ensures (orThrow o e) s Q E ↔ (o = none → E e s) ∧ ∀ a, o = some a → Q a s := by
  cases o <;> simp [orThrow]

@[simp] theorem ensures_propagate {r : Except ε α} :
    Ensures (propagate r) s Q E ↔ (∀ e, r = .error e → E e s) ∧ ∀ a, r = .ok a → Q a s := by
  cases r <;> simp [propagate]

variable {R : Except ε' β → σ → Prop}

@[simp] theorem ensures_attempt {x : EStateM ε' σ β} :
    Ensures (attempt x : EStateM ε σ (Except ε' β)) s R E ↔
      Ensures x s (fun a t => R (.ok a) t) (fun e t => R (.error e) t) := by
  rw [Ensures, attempt, Ensures]
  cases x s <;> rfl

@[simp] theorem ensures_mapErr {x : EStateM ε' σ α} {f : ε' → ε} :
    Ensures (mapErr f x) s Q E ↔ Ensures x s Q (fun e t => E (f e) t) := by
  rw [Ensures, mapErr, Ensures]
  cases x s <;> rfl

@[simp] theorem ensures_within {part : σ → τ} {put : τ → σ → σ} {x : EStateM ε' τ β} :
    Ensures (within part put x : EStateM ε σ (Except ε' β)) s R E ↔
      Ensures x (part s) (fun a t => R (.ok a) (put t s)) (fun e t => R (.error e) (put t s)) := by
  rw [Ensures, within, Ensures]
  cases x (part s) <;> rfl

theorem ensures_ite {c : Prop} [Decidable c] {y : EStateM ε σ α} :
    Ensures (if c then x else y) s Q E ↔ (c → Ensures x s Q E) ∧ (¬c → Ensures y s Q E) := by
  by_cases h : c <;> simp [h]

/-- The rules above for the actions that a step is made of, for `simp only` to follow it with and
drop what holds at once. -/
theorem ensures_rules : (false = true ↔ False) ∧ (∀ {p : Prop}, (False → p) ↔ True) ∧
    (∀ {p : Prop}, (True → p) ↔ p) ∧ (∀ {p : Prop}, True ∧ p ↔ p) ∧
    (∀ {p : Prop}, (p → True) ↔ True) ∧ (∀ {α : Type}, (α → True) ↔ True) ∧ ∀ {ε σ : Type},
    (∀ {α β} {x : EStateM ε σ α} {f : α → EStateM ε σ β} {s R E},
      Ensures (x >>= f) s R E ↔ Ensures x s (fun a t => Ensures (f a) t R E) E) ∧
    (∀ {α} {a : α} {s : σ} {Q} {E : ε → σ → Prop}, Ensures (pure a) s Q E ↔ Q a s) ∧
    (∀ {α e} {s : σ} {Q E}, Ensures (throw e : EStateM ε σ α) s Q E ↔ E e s) ∧
    (∀ {s : σ} {R E}, Ensures (get : EStateM ε σ σ) s R E ↔ R s s) ∧
    (∀ {s t : σ} {R E}, Ensures (set t : EStateM ε σ PUnit) s R E ↔ R ⟨⟩ t) ∧
    (∀ {f : σ → σ} {s R E}, Ensures (modify f : EStateM ε σ PUnit) s R E ↔ R ⟨⟩ (f s)) ∧
    (∀ {c} {e : ε} {s : σ} {R E},
      Ensures (refuse c e) s R E ↔ (c = true → E e s) ∧ (c = false → R () s)) ∧
    (∀ {α} {o : Option α} {e : ε} {s : σ} {Q E},
      Ensures (orThrow o e) s Q E ↔ (o = none → E e s) ∧ ∀ a, o = some a → Q a s) ∧
    ∀ {α} {r : Except ε α} {s : σ} {Q E},
      Ensures (propagate r) s Q E ↔ (∀ e, r = .error e → E e s) ∧ ∀ a, r = .ok a → Q a s :=
  ⟨by simp, by simp, true_imp_iff, iff_of_eq (true_and _), imp_true_iff _, imp_true_iff _,
    ensures_bind, ensures_pure, ensures_throw, ensures_get, ensures_set, ensures_modify,
    ensures_refuse, ensures_orThrow, ensures_propagate⟩

/-! ### Loops -/

variable {l : List β} {f : β → EStateM ε σ PUnit}

/-- A loop over a list keeps what each turn keeps. -/
theorem ensures_forM {I : σ → Prop} (hs : I s)
    (hstep : ∀ x ∈ l, ∀ t, I t → Ensures (f x) t (fun _ t' => I t') E) :
    Ensures (forM l f) s (fun _ t => I t) E := by
  induction l generalizing s with
  | nil => exact hs
  | cons x rest ih =>
    rw [forM_cons, ensures_bind]
    refine (hstep x mem_cons_self s hs).imp_ok (fun _ t ht => ?_)
    exact ih ht fun y hy => hstep y (mem_cons_of_mem x hy)

/-- A loop over a list: the invariant follows the part of the list that is done. -/
theorem ensures_forM_done {I : List β → σ → Prop}
    (hs : I [] s) (hstep : ∀ done x rest, l = done ++ x :: rest → ∀ t, I done t →
      Ensures (f x) t (fun _ t' => I (done ++ [x]) t') E) :
    Ensures (forM l f) s (fun _ t => I l t) E := by
  induction l using reverseRecOn with
  | nil => exact hs
  | append_singleton l x ih =>
    rw [forM_append, ensures_bind]
    refine (ih fun done y rest h => hstep done y (rest ++ [x]) (by simp [h])).mono
      (fun _ t ht => ?_) fun _ _ h => h
    rw [forM_cons, ensures_bind]
    exact (hstep l x [] rfl t ht).imp_ok (fun _ _ h => h)

/-- A loop with a turn that cannot succeed does not succeed. -/
theorem ensures_forM_fails {x : β} (hx : x ∈ l)
    (hf : ∀ t, Ensures (f x) t (fun _ _ => False) fun _ _ => True) :
    Ensures (forM l f) s (fun _ _ => False) fun _ _ => True := by
  induction l generalizing s with
  | nil => exact absurd hx not_mem_nil
  | cons y rest ih =>
    rw [forM_cons, ensures_bind]
    rcases mem_cons.mp hx with rfl | hx
    · exact (hf s).imp_ok (fun _ _ h => absurd h not_false)
    · exact .of_forall (fun _ _ => ih hx) fun _ _ => trivial

/-- A loop that counts, with an invariant that follows the count. -/
theorem ensures_forM_range {n : Nat} {f : Nat → EStateM ε σ PUnit} {I : Nat → σ → Prop} (hs : I 0 s)
    (hstep : ∀ i < n, ∀ t, I i t → Ensures (f i) t (fun _ t' => I (i + 1) t') E) :
    Ensures (forM (range n) f) s (fun _ t => I n t) E := by
  induction n with
  | zero => exact hs
  | succ n ih =>
    rw [range_succ, forM_append, ensures_bind]
    refine (ih fun i hi => hstep i (by omega)).imp_ok (fun _ t ht => ?_)
    rw [forM_cons, ensures_bind]
    exact (hstep n (Nat.lt_succ_self n) t ht).imp_ok (fun _ t' ht' => ht')

/-- A loop over a list with a local accumulator: the invariant follows the part of the list that is
done, the accumulator and the state. -/
theorem ensures_foldlM {f : α → β → EStateM ε σ α} {I : List β → α → σ → Prop} (hs : I [] a s)
    (hstep : ∀ done x rest, l = done ++ x :: rest → ∀ a t, I done a t →
      Ensures (f a x) t (fun a' t' => I (done ++ [x]) a' t') E) :
    Ensures (l.foldlM f a) s (fun a t => I l a t) E := by
  induction l using reverseRecOn with
  | nil => exact hs
  | append_singleton l x ih =>
    rw [foldlM_append, ensures_bind]
    refine (ih fun done y rest h => hstep done y (rest ++ [x]) (by simp [h])).mono
      (fun a t ht => ?_) fun _ _ h => h
    rw [foldlM_cons, ensures_bind]
    exact (hstep l x [] rfl a t ht).imp_ok (fun _ _ h => h)

end Rules

end Sisyphus.Fallible
