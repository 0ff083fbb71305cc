import Mathlib.Data.UInt
import Mathlib.Tactic

/-!
# Fallible stateful actions

A function that takes `&mut self` and returns a `Result` is an `EStateM ε σ α`: it maps a state to
a value or an error, *together with the state it leaves behind*.  The state survives an error,
which is what a Rust function does when it returns early with `?` after having changed something.

This file has the few combinators such control flow needs (`refuse` for an early `return Err(e)`,
`orThrow` for `ok_or`, `attempt` for a `match` on a `Result`, `mapErr` for `map_err`) and inversion
lemmas that say when they end in `ok`.
-/

set_option autoImplicit false

namespace Sisyphus.Fallible

open List

open EStateM (Result)

variable {ε ε' σ α β : Type} {o : Option α}

/-! ## Combinators -/

/-- `if cond { return Err(e) }`. -/
def refuse (cond : Bool) (e : ε) : EStateM ε σ Unit :=
  if cond then throw e else pure ()

/-- `o.ok_or(e)?`. -/
def orThrow (o : Option α) (e : ε) : EStateM ε σ α :=
  match o with
  | some a => pure a
  | none => throw e

/-- `r?` on a computed `Result`. -/
def propagate (r : Except ε α) : EStateM ε σ α :=
  match r with
  | .ok a => pure a
  | .error e => throw e

/-- Runs an action and hands its `Result` to a `match`, so that the caller decides what an error
means. -/
def attempt (x : EStateM ε σ α) : EStateM ε' σ (Except ε α) := fun s =>
  match x s with
  | .ok a t => .ok (.ok a) t
  | .error e t => .ok (.error e) t

/-- `x.map_err(f)?`. -/
def mapErr (f : ε' → ε) (x : EStateM ε' σ α) : EStateM ε σ α := fun s =>
  match x s with
  | .ok a t => .ok a t
  | .error e t => .error (f e) t

/-- `o.ok_or(e)?` where there is no state. -/
def okOr (o : Option α) (e : ε) : Except ε α :=
  match o with
  | some a => .ok a
  | none => .error e

/-- `if cond { return Err(e) }` where there is no state. -/
def reject (cond : Bool) (e : ε) : Except ε Unit := if cond then .error e else .ok ()

@[simp] theorem okOr_eq_ok {e : ε} {a : α} : okOr o e = .ok a ↔ o = some a := by
  cases o <;> simp [okOr]

@[simp] theorem reject_eq_ok {cond : Bool} {e : ε} {u : Unit} :
    reject cond e = .ok u ↔ cond = false := by
  cases cond <;> simp [reject]

section Checks

variable {c : Prop} [Decidable c] {e : ε} {x : Except ε α} {a : α}

@[simp] theorem ite_error_eq_ok : (if c then .error e else x) = .ok a ↔ ¬c ∧ x = .ok a := by
  split <;> simp [*]

@[simp] theorem ite_eq_ok_error : (if c then x else .error e) = .ok a ↔ c ∧ x = .ok a := by
  split <;> simp [*]

@[simp] theorem dite_eq_ok_error {f : c → Except ε α} :
    (if h : c then f h else .error e) = .ok a ↔ ∃ h, f h = .ok a := by
  split <;> simp [*]

@[simp] theorem ite_error_prod_eq_ok {s t : σ} {x : Except ε α × σ} :
    (if c then (.error e, s) else x) = (.ok a, t) ↔ ¬c ∧ x = (.ok a, t) := by
  split <;> simp [*]

end Checks

theorem eq_ok_get (r : Except ε α) (h : r.toOption.isSome = true) : r = .ok (r.toOption.get h) := by
  cases r with
  | ok a => rfl
  | error e => cases h

/-- A sequence of pure checks succeeds when each of them does. -/
theorem except_bind_eq_ok {x : Except ε α} {f : α → Except ε β} {b : β} :
    (x >>= f) = .ok b ↔ ∃ a, x = .ok a ∧ f a = .ok b := by
  cases x with
  | error e | ok a => simp [bind, Except.bind]

/-- **What a loop with an accumulator keeps**: `I` relates the elements that have been passed to the
accumulator. -/
theorem foldlM_eq_ok {f : β → α → Except ε β} {l : List α} {b c : β} {I : List α → β → Prop}
    (h : l.foldlM f b = .ok c) (hstart : I [] b)
    (hstep : ∀ done a, a ∈ l → ∀ x y, I done x → f x a = .ok y → I (done ++ [a]) y) : I l c := by
  suffices ∀ rest done x, (∀ a ∈ rest, a ∈ l) → I done x → rest.foldlM f x = .ok c →
      I (done ++ rest) c from this l [] b (fun _ ha => ha) hstart h
  intro rest
  induction rest with
  | nil =>
    intro done x _ hx hc
    cases hc
    rwa [append_nil]
  | cons a rest ih =>
    intro done x hmem hx hc
    rw [foldlM_cons, except_bind_eq_ok] at hc
    obtain ⟨y, hy, hc⟩ := hc
    rw [append_cons]
    exact ih _ y (fun a ha => hmem a (mem_cons_of_mem _ ha))
      (hstep done a (hmem a mem_cons_self) x y hx hy) hc

/-- What holds of the elements that have been passed and of the next. -/
theorem forall_mem_concat {p : α → Prop} {l : List α} {a : α} :
    (∀ x ∈ l ++ [a], p x) ↔ (∀ x ∈ l, p x) ∧ p a := by
  rw [forall_mem_append, forall_mem_singleton]

/-! ## What an action does to a state

The lemmas below are the simp set that runs an action symbolically: reading and writing the state
are rewritten away, and every other combinator turns `x s = .ok b u` into the conditions under which
it ends so. -/

section Inversion

variable {s t u : σ} {a : α} {b : β} {e e' : ε}

theorem bind_apply (x : EStateM ε σ α) (f : α → EStateM ε σ β) (s : σ) :
    (x >>= f) s = match x s with
      | .ok a t => f a t
      | .error e t => .error e t := rfl

@[simp] theorem get_apply (s : σ) : (get : EStateM ε σ σ) s = .ok s s := rfl

@[simp] theorem set_apply (s t : σ) : (set t : EStateM ε σ PUnit) s = .ok ⟨⟩ t := rfl

@[simp] theorem modify_apply (f : σ → σ) (s : σ) :
    (modify f : EStateM ε σ PUnit) s = .ok ⟨⟩ (f s) := rfl

@[simp] theorem pure_apply (a : α) (s : σ) : (pure a : EStateM ε σ α) s = .ok a s := rfl

@[simp] theorem throw_apply (e : ε) (s : σ) : (throw e : EStateM ε σ α) s = .error e s := rfl

@[simp] theorem bind_get (f : σ → EStateM ε σ β) (s : σ) : (get >>= f) s = f s s := rfl

@[simp] theorem bind_set (f : PUnit → EStateM ε σ β) (s t : σ) :
    (set t >>= f : EStateM ε σ β) s = f ⟨⟩ t := rfl

@[simp] theorem bind_modify (g : σ → σ) (f : PUnit → EStateM ε σ β) (s : σ) :
    (modify g >>= f : EStateM ε σ β) s = f ⟨⟩ (g s) := rfl

@[simp] theorem bind_pure_apply (a : α) (f : α → EStateM ε σ β) (s : σ) :
    (pure a >>= f : EStateM ε σ β) s = f a s := rfl

@[simp] theorem bind_throw (e : ε) (f : α → EStateM ε σ β) (s : σ) :
    ((throw e : EStateM ε σ α) >>= f) s = .error e s := rfl

@[simp] theorem map_refuse (c : Bool) (e : ε) (f : Unit → β) (s : σ) :
    (f <$> refuse c e : EStateM ε σ β) s = if c then .error e s else .ok (f ()) s := by
  cases c <;> rfl

variable {f : α → EStateM ε σ β}

@[simp] theorem bind_refuse_eq_ok {c : Bool} {f : Unit → EStateM ε σ β} :
    (refuse c e >>= f) s = .ok b u ↔ c = false ∧ f () s = .ok b u := by
  cases c <;> simp [refuse]

@[simp] theorem bind_orThrow_eq_ok :
    (orThrow o e >>= f) s = .ok b u ↔ ∃ a, o = some a ∧ f a s = .ok b u := by
  cases o <;> simp [orThrow]

@[simp] theorem bind_propagate_eq_ok {r : Except ε α} :
    (propagate r >>= f) s = .ok b u ↔ ∃ a, r = .ok a ∧ f a s = .ok b u := by
  cases r <;> simp [propagate]

end Inversion

end Sisyphus.Fallible
