import Mathlib.Order.PiLex
import Mathlib.Tactic

/-!
# Clause sets and the path of a chronological search

A backtracking search for a model of a clause set keeps a *trail*: the literals it has committed
to, the most recent first.  Some of them are decisions, the others follow from the clauses and what
lies below them.  `Path` says what such a search knows of its trail, in terms of models alone:

* what lies above a decision agrees with every model that agrees with the trail up to it;
* a decision that has been flipped to its positive side was tried negatively before, and no model
  agrees with that;
* when a decision was made, every smaller variable of the domain was on the trail already.

The lemmas `Path.push`, `Path.decide` and `Path.flip` are the moves of the search, and
`refutes_of_both` is what gives up a decision that failed both ways.  A trail that covers the domain
is then the lexicographically least model, absence before presence (`Path.not_lex_lt`): a smaller
model would have to leave the trail at a decision, which is either refuted or negative already.

`odometer` bounds the number of moves.  It reads the decisions as the digits of a number in base
three that every decision and every flip increases.
-/

set_option autoImplicit false

namespace Sisyphus.Cnf

open Bool List

/-- A variable or its negation. -/
structure Lit (V : Type) where
  var : V
  sign : Bool

variable {V : Type} {m : V → Bool} {v : V}

namespace Lit

def pos (v : V) : Lit V := ⟨v, true⟩

def neg (v : V) : Lit V := ⟨v, false⟩

def Holds (m : V → Bool) (lit : Lit V) : Prop := m lit.var = lit.sign

theorem holds_neg : (neg v).Holds m ↔ m v = false := Iff.rfl

end Lit

/-- `m` makes some literal of every clause true. -/
def Models (m : V → Bool) (clauses : List (List (Lit V))) : Prop :=
  ∀ clause ∈ clauses, ∃ lit ∈ clause, lit.Holds m

def Agrees (m : V → Bool) (trail : List (Lit V)) : Prop := ∀ lit ∈ trail, lit.Holds m

theorem agrees_cons {lit : Lit V} {trail : List (Lit V)} :
    Agrees m (lit :: trail) ↔ lit.Holds m ∧ Agrees m trail :=
  forall_mem_cons

/-- No model agrees with the trail. -/
def Refutes (clauses : List (List (Lit V))) (trail : List (Lit V)) : Prop :=
  ∀ m, Models m clauses → ¬ Agrees m trail

/-- Every model that agrees with `base` agrees with all of `trail`. -/
def Forces (clauses : List (List (Lit V))) (base trail : List (Lit V)) : Prop :=
  ∀ m, Models m clauses → Agrees m base → Agrees m trail

variable {clauses : List (List (Lit V))}

theorem Forces.refutes {base trail : List (Lit V)} (h : Forces clauses base trail)
    (href : Refutes clauses trail) : Refutes clauses base :=
  fun m hm hbase => href m hm (h m hm hbase)

/-- A trail that fails with a variable absent and with it present fails without it. -/
theorem refutes_of_both {base : List (Lit V)} (hneg : Refutes clauses (Lit.neg v :: base))
    (hpos : Refutes clauses (Lit.pos v :: base)) :
    Refutes clauses base := by
  intro m hm hbase
  cases hv : m v with
  | false => exact hneg m hm (agrees_cons.mpr ⟨hv, hbase⟩)
  | true => exact hpos m hm (agrees_cons.mpr ⟨hv, hbase⟩)

/-! ## Decisions -/

/-- A decision: negative first, positive once that has failed. -/
structure Decision (V : Type) where
  chosen : V
  /-- The length of the trail below it. -/
  trailStart : Nat
  triedPositive : Bool

def Decision.lit (d : Decision V) : Lit V := ⟨d.chosen, d.triedPositive⟩

section Path

variable [LinearOrder V] {clauses : List (List (Lit V))} {domain : V → Prop}
variable {ds : List (Decision V)} {trail : List (Lit V)}

/-- What a search that made the decisions `ds`, the most recent first, knows of its trail. -/
inductive Path (clauses : List (List (Lit V))) (domain : V → Prop) :
    List (Decision V) → List (Lit V) → Prop
  | root {trail : List (Lit V)} : Forces clauses [] trail → Path clauses domain [] trail
  | decision {d : Decision V} {ds : List (Decision V)} {trail : List (Lit V)}
      (implied base : List (Lit V)) :
      trail = implied ++ d.lit :: base →
      Path clauses domain ds base →
      d.trailStart = base.length →
      Forces clauses (d.lit :: base) trail →
      (d.triedPositive = true → Refutes clauses (Lit.neg d.chosen :: base)) →
      (∀ u, domain u → u < d.chosen → ∃ lit ∈ base, lit.var = u) →
      Path clauses domain (d :: ds) trail

namespace Path

/-- A literal that follows from the trail is put on it. -/
theorem push (h : Path clauses domain ds trail) {lit : Lit V}
    (hlit : ∀ m, Models m clauses → Agrees m trail → lit.Holds m) :
    Path clauses domain ds (lit :: trail) := by
  cases h with
  | root hforces =>
    exact .root fun m hm hbase =>
      agrees_cons.mpr ⟨hlit m hm (hforces m hm hbase), hforces m hm hbase⟩
  | decision implied base htrail hpath hstart hforces href hdom =>
    refine .decision (lit :: implied) base ?_ hpath hstart ?_ href hdom
    · rw [htrail, cons_append]
    · exact fun m hm hbase =>
        agrees_cons.mpr ⟨hlit m hm (hforces m hm hbase), hforces m hm hbase⟩

/-- The smallest variable of the domain that is not on the trail is decided negatively. -/
theorem decide (h : Path clauses domain ds trail)
    (hv : ∀ u, domain u → u < v → ∃ lit ∈ trail, lit.var = u) :
    Path clauses domain (⟨v, trail.length, false⟩ :: ds) (Lit.neg v :: trail) :=
  .decision [] trail rfl h rfl (fun _ _ hbase => hbase) (fun hpos => absurd hpos false_ne_true) hv

/-- A decision whose negative side is refuted is made positively. -/
theorem flip {d : Decision V} (h : Path clauses domain ds trail)
    (hstart : d.trailStart = trail.length) (href : Refutes clauses (Lit.neg d.chosen :: trail))
    (hdom : ∀ u, domain u → u < d.chosen → ∃ lit ∈ trail, lit.var = u) :
    Path clauses domain ({ d with triedPositive := true } :: ds) (Lit.pos d.chosen :: trail) :=
  .decision [] trail rfl h hstart (fun _ _ hbase => hbase) (fun _ => href) hdom

/-- What is known of the trail below the most recent decision. -/
theorem parent {d : Decision V} (h : Path clauses domain (d :: ds) trail) :
    ∃ base, (∃ implied, trail = implied ++ d.lit :: base) ∧ d.trailStart = base.length ∧
      Path clauses domain ds base ∧
      (Refutes clauses trail → Refutes clauses (d.lit :: base)) ∧
      (d.triedPositive = true → Refutes clauses (Lit.neg d.chosen :: base)) ∧
      (∀ u, domain u → u < d.chosen → ∃ lit ∈ base, lit.var = u) := by
  cases h with
  | decision implied base htrail hpath hstart hforces href hdom =>
    exact ⟨base, ⟨implied, htrail⟩, hstart, hpath, hforces.refutes, href, hdom⟩

theorem length_le (h : Path clauses domain ds trail) : ds.length ≤ trail.length := by
  induction h with
  | root hforces => exact Nat.zero_le _
  | decision implied base htrail hpath hstart hforces href hdom ih =>
    rw [htrail, length_append, length_cons, length_cons]
    omega

/-- A model that does not agree with the whole trail leaves it at a negative decision, and agrees
with it on every smaller variable of the domain. -/
theorem leaves (h : Path clauses domain ds trail) (hm : Models m clauses) :
    Agrees m trail ∨ ∃ v, m v = true ∧ Lit.neg v ∈ trail ∧
      ∀ u, domain u → u < v → ∃ lit ∈ trail, lit.var = u ∧ lit.Holds m := by
  induction h with
  | root hforces => exact .inl (hforces m hm fun _ hmem => absurd hmem not_mem_nil)
  | @decision d ds trail implied base htrail hpath hstart hforces href hdom ih =>
    have hsub : ∀ lit ∈ base, lit ∈ trail := fun lit hmem => by
      rw [htrail]
      exact mem_append_right _ (mem_cons_of_mem _ hmem)
    rcases ih with hbase | ⟨v, hv, hmem, hsmaller⟩
    · by_cases hd : d.lit.Holds m
      · exact .inl (hforces m hm (agrees_cons.mpr ⟨hd, hbase⟩))
      · -- Only an unflipped decision can be left: the other side of a flipped one is refuted.
        have hne : m d.chosen ≠ d.triedPositive := hd
        cases htried : d.triedPositive with
        | true =>
          rw [htried, ne_eq, not_eq_true] at hne
          exact absurd (agrees_cons.mpr ⟨Lit.holds_neg.mpr hne, hbase⟩) (href htried m hm)
        | false =>
          rw [htried, ne_eq, not_eq_false] at hne
          refine .inr ⟨d.chosen, hne, ?_, fun u hu hlt => ?_⟩
          · rw [htrail]
            refine mem_append_right _ (mem_cons.mpr (.inl ?_))
            rw [Decision.lit, htried, Lit.neg]
          · obtain ⟨lit, hmem, rfl⟩ := hdom u hu hlt
            exact ⟨lit, hsub lit hmem, rfl, hbase lit hmem⟩
    · refine .inr ⟨v, hv, hsub _ hmem, fun u hu hlt => ?_⟩
      obtain ⟨lit, hmem, hvar⟩ := hsmaller u hu hlt
      exact ⟨lit, hsub lit hmem, hvar⟩

end Path

end Path

/-! ## The least model -/

/-- `least` reads its values off the trail, and is absent elsewhere. -/
def ReadOff (trail : List (Lit V)) (least : V → Bool) : Prop :=
  (∀ lit ∈ trail, lit.Holds least) ∧ ∀ v, least v = true → Lit.pos v ∈ trail

section Lex

variable [LinearOrder V] {clauses : List (List (Lit V))} {domain : V → Prop}
variable {ds : List (Decision V)} {trail : List (Lit V)}

/-- No model comes before the one that is read off the trail. -/
theorem Path.not_lex_lt (h : Path clauses domain ds trail)
    (hdomain : ∀ lit ∈ trail, domain lit.var) {least : V → Bool} (hleast : ReadOff trail least)
    (hm : Models m clauses) : ¬ toLex m < toLex least := by
  rintro ⟨i, hbelow, hlt⟩
  obtain ⟨hmi, hli⟩ : m i = false ∧ least i = true := lt_iff.mp hlt
  have hi : Lit.pos i ∈ trail := hleast.2 i hli
  rcases h.leaves hm with hall | ⟨v, hv, hmem, hsmaller⟩
  · have : m i = true := hall _ hi
    rw [hmi] at this
    exact absurd this false_ne_true
  · have hlv : least v = false := hleast.1 _ hmem
    rcases lt_trichotomy v i with hvi | rfl | hiv
    · have : m v = least v := hbelow v hvi
      rw [hv, hlv] at this
      exact absurd this.symm false_ne_true
    · rw [hli] at hlv
      exact absurd hlv.symm false_ne_true
    · obtain ⟨lit, hlit, rfl, hholds⟩ := hsmaller i (hdomain _ hi) hiv
      have : m lit.var = least lit.var := hholds.trans (hleast.1 lit hlit).symm
      rw [hmi, hli] at this
      exact absurd this false_ne_true

end Lex

/-! ## The number of moves -/

/-- The decisions as a number of `depth` digits in base three: 1 for a negative decision, 2 for a
flipped one, 0 where there is none. -/
def odometer (depth : Nat) : List (Decision V) → Nat
  | [] => 0
  | d :: ds => odometer depth ds +
      (if d.triedPositive then 2 else 1) * 3 ^ (depth - (ds.length + 1))

variable {depth : Nat} {d : Decision V} {ds : List (Decision V)}

theorem pow_succ_depth {n : Nat} (h : n < depth) : 3 ^ (depth - n) = 3 * 3 ^ (depth - (n + 1)) := by
  rw [← pow_succ']
  congr 1
  omega

/-- A further decision increases the number. -/
theorem odometer_decide (hneg : d.triedPositive = false) :
    odometer depth ds < odometer depth (d :: ds) := by
  have hpos : 0 < 3 ^ (depth - (ds.length + 1)) := Nat.pow_pos (by decide)
  rw [odometer, hneg]
  simp only [false_eq_true, if_false]
  omega

/-- What the digits below a flipped decision can still add is less than one at its own place. -/
theorem odometer_carry (hpos : d.triedPositive = true) (hlen : ds.length < depth) :
    odometer depth (d :: ds) + 3 ^ (depth - (d :: ds).length) =
      odometer depth ds + 3 ^ (depth - ds.length) := by
  rw [odometer, hpos, pow_succ_depth hlen, length_cons, if_pos rfl]
  omega

theorem odometer_flip (hneg : d.triedPositive = false) :
    odometer depth (d :: ds) + 3 ^ (depth - (d :: ds).length) =
      odometer depth ({ d with triedPositive := true } :: ds) := by
  rw [odometer, odometer, hneg, length_cons, if_pos rfl]
  simp only [false_eq_true, if_false]
  omega

theorem odometer_lt (hlen : ds.length ≤ depth) : odometer depth ds < 3 ^ depth := by
  have hbound : odometer depth ds + 3 ^ (depth - ds.length) ≤ 3 ^ depth := by
    induction ds with
    | nil => rw [odometer, length_nil, Nat.sub_zero, Nat.zero_add]
    | cons d ds ih =>
      have hlt : ds.length < depth := hlen
      have hdigit : (if d.triedPositive then 2 else 1) ≤ 2 := by split <;> omega
      have := ih hlt.le
      rw [pow_succ_depth hlt] at this
      rw [odometer, length_cons]
      nlinarith [Nat.mul_le_mul_right (3 ^ (depth - (ds.length + 1))) hdigit]
  have hpos : 0 < 3 ^ (depth - ds.length) := Nat.pow_pos (by decide)
  omega

end Sisyphus.Cnf
