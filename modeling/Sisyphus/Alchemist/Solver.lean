import Sisyphus.Foundation.Cnf

/-!
# The dependency solver

Corinth resolves packages with a DPLL search over Boolean variables, one for each pair of a package
and a version.  The clauses live in a table that only grows, or is cut back to an earlier length;
`ClauseStore` carries what the table keeps up: the active variables are those its clauses mention,
and all of them are below the number of packages.

The search is iterative.  `DpllSolver.propagate` sweeps the clauses until a sweep forces nothing,
`DpllSolver.backtrack` unwinds the decisions after a conflict, and `DpllSolver.search` is the loop
of `solve`.  Both loops take fuel here, and give nothing when it runs out; how much is enough is
proved with the search.

A clause is the list of its literals, and a variable a number.  The counters of conflicts and
propagations are only reported, and no decision reads them.  They wrap, as in a release build, so
that no verdict depends on how long the search took; the crate's passes over code are those of a
development build, since there an overflow decides whether a pass ends (`Crucible`).
-/

set_option autoImplicit false

namespace Sisyphus.Alchemist

open Cnf (Lit Decision)

def maxPackages : Nat := 256

def maxClauses : Nat := 1024

def maxClauseLen : Nat := 16

def maxTrail : Nat := 512

/-! ## Clauses -/

abbrev Clause := List (Lit Nat)

/-- `Clause::push`: a literal is appended while there is room. -/
def Clause.push (clause : Clause) (lit : Lit Nat) : Option Clause :=
  if clause.length ≥ maxClauseLen then none else some (clause ++ [lit])

inductive ClauseStatus
  | satisfied
  | unit (lit : Lit Nat)
  | conflict
  | unresolved

/-- The loop of `Clause::status` over the remaining literals, with the number of unset ones so far
and the last of them. -/
def Clause.scan (assignment : Nat → Option Bool) : Clause → Nat → Lit Nat → ClauseStatus
  | [], 0, _ => .conflict
  | [], 1, lastUnset => .unit lastUnset
  | [], _ + 2, _ => .unresolved
  | lit :: rest, unsetCount, lastUnset =>
    match assignment lit.var with
    | none => Clause.scan assignment rest (unsetCount + 1) lit
    | some value =>
      if value = lit.sign then .satisfied else Clause.scan assignment rest unsetCount lastUnset

/-- Whether the clause is satisfied, unit, unsatisfied or unresolved. -/
def Clause.status (clause : Clause) (assignment : Nat → Option Bool) : ClauseStatus :=
  clause.scan assignment 0 (Lit.pos 0)

/-! ## The clause table -/

/-- The clauses and the variables they mention. -/
structure ClauseStore where
  clauses : List Clause
  activeVariables : Nat → Bool
  capacity : clauses.length ≤ maxClauses
  short : ∀ clause ∈ clauses, clause.length ≤ maxClauseLen
  active_iff : ∀ v, activeVariables v = true ↔ ∃ clause ∈ clauses, ∃ lit ∈ clause, lit.var = v
  in_range : ∀ clause ∈ clauses, ∀ lit ∈ clause, lit.var < maxPackages

/-- The variables of a list of clauses, one flag for each. -/
def mentions (clauses : List Clause) (v : Nat) : Bool :=
  clauses.any fun clause => clause.any fun lit => lit.var == v

theorem mentions_iff {clauses : List Clause} {v : Nat} :
    mentions clauses v = true ↔ ∃ clause ∈ clauses, ∃ lit ∈ clause, lit.var = v := by
  simp only [mentions, List.any_eq_true, beq_iff_eq]

namespace ClauseStore

def empty : ClauseStore where
  clauses := []
  activeVariables := fun _ => false
  capacity := Nat.zero_le _
  short := by simp
  active_iff := by simp
  in_range := by simp

/-- The test `add_clause` refuses on. -/
def Refuses (store : ClauseStore) (clause : Clause) : Prop :=
  store.clauses.length ≥ maxClauses ∨ clause.length > maxClauseLen ∨
    ∃ lit ∈ clause, lit.var ≥ maxPackages

instance (store : ClauseStore) (clause : Clause) : Decidable (store.Refuses clause) :=
  inferInstanceAs (Decidable (_ ∨ _ ∨ _))

/-- What `add_clause` does to the table. -/
def addClause (store : ClauseStore) (clause : Clause) : Bool × ClauseStore :=
  if h : store.Refuses clause then (false, store)
  else
    (true,
      { clauses := store.clauses ++ [clause]
        activeVariables := fun v => store.activeVariables v || mentions [clause] v
        capacity := by
          rw [List.length_append]
          exact Nat.not_le.mp fun hfull => h (.inl hfull)
        short := fun c hc => by
          rcases List.mem_append.mp hc with hc | hc
          · exact store.short c hc
          · obtain rfl := List.mem_singleton.mp hc
            exact Nat.not_lt.mp fun hlong => h (.inr (.inl hlong))
        active_iff := fun v => by
          rw [Bool.or_eq_true, store.active_iff, mentions_iff]
          simp only [List.mem_append, or_and_right, exists_or]
        in_range := fun c hc lit hlit => by
          rcases List.mem_append.mp hc with hc | hc
          · exact store.in_range c hc lit hlit
          · obtain rfl := List.mem_singleton.mp hc
            exact Nat.not_le.mp fun hge => h (.inr (.inr ⟨lit, hlit, hge⟩)) })

/-- What `truncate_clauses` does to it: the table is cut back to an earlier length, and the active
variables are collected anew. -/
def truncateClauses (store : ClauseStore) (count : Nat) : ClauseStore :=
  if count ≥ store.clauses.length then store
  else
    { clauses := store.clauses.take count
      activeVariables := mentions (store.clauses.take count)
      capacity := (List.length_take_le' _ _).trans store.capacity
      short := fun c hc => store.short c (List.mem_of_mem_take hc)
      active_iff := fun _ => mentions_iff
      in_range := fun c hc => store.in_range c (List.mem_of_mem_take hc) }

end ClauseStore

/-! ## The solver -/

structure DpllSolver extends ClauseStore where
  assignment : Nat → Option Bool
  /-- The assigned literals, the most recent first. -/
  trail : List (Lit Nat)
  decisionLevel : Nat
  conflicts : UInt32
  propagations : UInt64

inductive SolveResult
  | satisfiable (decisions : Nat) (propagations : UInt64) (conflicts : UInt32)
  | unsatisfiable
deriving DecidableEq

namespace DpllSolver

def new : DpllSolver where
  toClauseStore := .empty
  assignment := fun _ => none
  trail := []
  decisionLevel := 0
  conflicts := 0
  propagations := 0

/-- `add_clause`, with what it returns. -/
def addClause (s : DpllSolver) (clause : Clause) : Bool × DpllSolver :=
  ((s.toClauseStore.addClause clause).1,
    { s with toClauseStore := (s.toClauseStore.addClause clause).2 })

def truncateClauses (s : DpllSolver) (count : Nat) : DpllSolver :=
  { s with toClauseStore := s.toClauseStore.truncateClauses count }

/-- Everything but the clauses is as in a new solver. -/
def resetSearch (s : DpllSolver) : DpllSolver := { new with toClauseStore := s.toClauseStore }

def assign (s : DpllSolver) (lit : Lit Nat) : DpllSolver :=
  { s with
    assignment := Function.update s.assignment lit.var (some lit.sign)
    trail := if s.trail.length < maxTrail then lit :: s.trail else s.trail }

/-- The loop of `unassign_back_to`, over the trail that is left. -/
def unwind (targetLen : Nat) :
    List (Lit Nat) → (Nat → Option Bool) → List (Lit Nat) × (Nat → Option Bool)
  | [], assignment => ([], assignment)
  | lit :: trail, assignment =>
    if trail.length + 1 > targetLen then
      unwind targetLen trail (Function.update assignment lit.var none)
    else (lit :: trail, assignment)

def unassignBackTo (s : DpllSolver) (targetLen : Nat) : DpllSolver :=
  { s with
    trail := (unwind targetLen s.trail s.assignment).1
    assignment := (unwind targetLen s.trail s.assignment).2 }

/-- The part of `propagate` that a unit clause runs. -/
def force (s : DpllSolver) (lit : Lit Nat) : DpllSolver :=
  { s.assign lit with propagations := s.propagations + 1 }

/-- One sweep of `propagate` over the clauses from number `ci` on: the clause that is in conflict,
whether a literal was forced, and the solver afterwards. -/
def sweep : List Clause → Nat → Bool → DpllSolver → Option Nat × Bool × DpllSolver
  | [], _, propagatedAny, s => (none, propagatedAny, s)
  | clause :: rest, ci, propagatedAny, s =>
    match clause.status s.assignment with
    | .unit lit => sweep rest (ci + 1) true (s.force lit)
    | .conflict => (some ci, propagatedAny, { s with conflicts := s.conflicts + 1 })
    | .satisfied => sweep rest (ci + 1) propagatedAny s
    | .unresolved => sweep rest (ci + 1) propagatedAny s

/-- `propagate`: sweeps until one forces nothing, or meets a conflict. -/
def propagate : Nat → DpllSolver → Option (Option Nat × DpllSolver)
  | 0, _ => none
  | fuel + 1, s =>
    match sweep s.clauses 0 false s with
    | (some ci, _, s) => some (some ci, s)
    | (none, true, s) => propagate fuel s
    | (none, false, s) => some (none, s)

/-- The lowest active variable that is unset. -/
def pickBranchVar (s : DpllSolver) : Option Nat :=
  (List.range maxPackages).find? fun v => s.activeVariables v && (s.assignment v).isNone

/-- The assignment of a decision, at the level it opens. -/
def decideAt (s : DpllSolver) (level : Nat) (lit : Lit Nat) : DpllSolver :=
  { s with decisionLevel := level }.assign lit

/-- The inner loop of `solve` after a conflict, over the decisions that are left: it stops at the
first one whose positive side is still to be tried. -/
def backtrack : List (Decision Nat) → DpllSolver → Option (List (Decision Nat)) × DpllSolver
  | [], s => (none, s)
  | frame :: frames, s =>
    let s := s.unassignBackTo frame.trailStart
    if frame.triedPositive = false then
      (some ({ frame with triedPositive := true } :: frames),
        s.decideAt (frames.length + 1) (Lit.pos frame.chosen))
    else backtrack frames { s with decisionLevel := frames.length }

/-- The loop of `solve`. -/
def search : Nat → List (Decision Nat) → DpllSolver → Option (SolveResult × DpllSolver)
  | 0, _, _ => none
  | fuel + 1, frames, s =>
    match propagate (maxPackages + 1) s with
    | none => none
    | some (some _, s) =>
      match backtrack frames s with
      | (some frames, s) => search fuel frames s
      | (none, s) => some (.unsatisfiable, s)
    | some (none, s) =>
      match s.pickBranchVar with
      | none => some (.satisfiable s.decisionLevel s.propagations s.conflicts, s)
      | some v =>
        if frames.length = maxPackages then some (.unsatisfiable, s)
        else
          search fuel (⟨v, s.trail.length, false⟩ :: frames)
            (s.decideAt (frames.length + 1) (Lit.neg v))

/-- `solve`, with the solver it leaves behind. -/
def solve (fuel : Nat) (s : DpllSolver) : Option (SolveResult × DpllSolver) :=
  search fuel [] s.resetSearch

/-- What `extract_selection` reads for a variable: whether it is assigned true. -/
def selected (s : DpllSolver) (v : Nat) : Bool := s.assignment v == some true

end DpllSolver

end Sisyphus.Alchemist
