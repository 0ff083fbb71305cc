import Sisyphus.Foundation.Fallible
import Sisyphus.Alchemist.Solver

/-!
# Requests and the clauses they become

A package version is a variable, numbered when it is first mentioned (`VariableRegistry.intern`).
Each call of the constraint builder interns the versions it speaks of and adds clauses over them;
when it runs out of variables or clauses part of the way, `ConstraintBuilder.transact` cuts both
tables back to where they were.

What the requests are for is stated without variables or clauses: `Request.Holds` says when a
selection of package versions meets one, and `Request.formula` is the encoding, still over package
versions, whose clauses the builder posts in this order.  Names are byte strings; the source knows
them by their hash alone.
-/

set_option autoImplicit false

namespace Sisyphus.Alchemist

open Cnf (Lit)
open Fallible

/-- A package name, by its hash, and a version. -/
abbrev PkgKey := UInt64 × UInt16

/-! ## The registry -/

structure PkgVar where
  nameHash : UInt64
  versionIdx : UInt16
  selected : Bool

def PkgVar.key (p : PkgVar) : PkgKey := (p.nameHash, p.versionIdx)

/-- The interned package versions; a variable is a position among them. -/
structure VariableRegistry where
  vars : List PkgVar
  capacity : vars.length ≤ maxPackages
  distinct : (vars.map PkgVar.key).Nodup

namespace VariableRegistry

def keys (r : VariableRegistry) : List PkgKey := r.vars.map PkgVar.key

def new : VariableRegistry := ⟨[], Nat.zero_le _, List.nodup_nil⟩

/-- The variable of a package version, which is added if it is new and there is room. -/
def intern (r : VariableRegistry) (key : PkgKey) : Option (Nat × VariableRegistry) :=
  if hknown : key ∈ r.keys then some (r.keys.idxOf key, r)
  else if hfull : r.vars.length ≥ maxPackages then none
  else
    some (r.vars.length,
      { vars := r.vars ++ [⟨key.1, key.2, false⟩]
        capacity := by
          rw [List.length_append]
          exact Nat.not_le.mp hfull
        distinct := by
          rw [List.map_append]
          refine List.nodup_append.mpr ⟨r.distinct, List.nodup_singleton _, ?_⟩
          rintro k hk l hl rfl
          obtain rfl := List.mem_singleton.mp hl
          exact hknown hk })

/-- The first `count` variables, which is what a cut-back leaves. -/
def truncate (r : VariableRegistry) (count : Nat) : VariableRegistry where
  vars := r.vars.take count
  capacity := (List.length_take_le' _ _).trans r.capacity
  distinct := by
    rw [List.map_take]
    exact r.distinct.sublist (List.take_sublist _ _)

/-- Marking the variables changes none of their keys. -/
theorem map_key_mapIdx (vars : List PkgVar) (mark : Nat → Bool) :
    (vars.mapIdx fun i p => { p with selected := mark i }).map PkgVar.key =
      vars.map PkgVar.key := by
  refine List.ext_getElem (by simp) fun i hi hi' => ?_
  simp [PkgVar.key]

/-- `extract_selection`: every variable is marked with what the solver assigned to it. -/
def extractSelection (solver : DpllSolver) (r : VariableRegistry) : VariableRegistry where
  vars := r.vars.mapIdx fun i p => { p with selected := solver.selected i }
  capacity := by
    rw [List.length_mapIdx]
    exact r.capacity
  distinct := by
    rw [map_key_mapIdx]
    exact r.distinct

/-- The selected package versions. -/
def selection (r : VariableRegistry) (key : PkgKey) : Bool :=
  r.vars.any fun p => p.key == key && p.selected

end VariableRegistry

/-! ## The builder -/

/-- The FNV-1a hash of a package name. -/
def fnv1a (s : List UInt8) : UInt64 :=
  s.foldl (fun h b => (h ^^^ b.toUInt64) * 0x100000001b3) 0xcbf29ce484222325

def strictlyIncreasing (values : List UInt16) : Bool :=
  (values.zip (values.drop 1)).all fun pair => decide (pair.1 < pair.2)

structure ConstraintBuilder where
  solver : DpllSolver
  registry : VariableRegistry

/-- The body of a builder call: it stops where the source's closure returns `None`. -/
abbrev Posting := EStateM Unit ConstraintBuilder

namespace ConstraintBuilder

def new : ConstraintBuilder := ⟨.new, .new⟩

def intern (key : PkgKey) : Posting Nat := do
  let b ← get
  let (var, registry) ← orThrow (b.registry.intern key) ()
  set { b with registry := registry }
  return var

def addClause (clause : Clause) : Posting Unit := do
  let b ← get
  set { b with solver := (b.solver.addClause clause).2 }
  refuse (!(b.solver.addClause clause).1) ()

/-- Interns the version a literal is about and pushes the literal. -/
def literal (clause : Clause) (lit : PkgKey × Bool) : Posting Clause := do
  let var ← intern lit.1
  orThrow (clause.push ⟨var, lit.2⟩) ()

/-- Builds one clause literal by literal and adds it. -/
def post (lits : List (PkgKey × Bool)) : Posting Unit := do
  let clause ← lits.foldlM literal []
  addClause clause

/-- The two nested loops of `at_most_one_version`. -/
def exclude (hash : UInt64) : List UInt16 → Posting Unit
  | [] => pure ()
  | version :: rest => do
    forM rest fun other => post [((hash, version), false), ((hash, other), false)]
    exclude hash rest

/-- `checkpoint`, the body of a call, and `finish`: what a call that does not succeed has added is
cut off again. -/
def transact (body : Posting Unit) (b : ConstraintBuilder) : Bool × ConstraintBuilder :=
  match body b with
  | .ok _ b' => (true, b')
  | .error _ b' =>
    (false, ⟨b'.solver.truncateClauses b.solver.clauses.length,
      b'.registry.truncate b.registry.vars.length⟩)

/-- The package version must be installed. -/
def require (b : ConstraintBuilder) (name : List UInt8) (ver : UInt16) : Bool × ConstraintBuilder :=
  b.transact (post [((fnv1a name, ver), true)])

/-- If `a` at version `va` is installed, then one of the versions of `b` must be. -/
def dependency (builder : ConstraintBuilder) (a : List UInt8) (va : UInt16) (b : List UInt8)
    (vbOptions : List UInt16) : Bool × ConstraintBuilder :=
  if vbOptions.isEmpty || vbOptions.length ≥ maxClauseLen || !strictlyIncreasing vbOptions then
    (false, builder)
  else
    builder.transact (post (((fnv1a a, va), false) ::
      vbOptions.reverse.map fun version => ((fnv1a b, version), true)))

/-- The two package versions exclude each other. -/
def conflict (builder : ConstraintBuilder) (a : List UInt8) (va : UInt16) (b : List UInt8)
    (vb : UInt16) : Bool × ConstraintBuilder :=
  builder.transact (post [((fnv1a a, va), false), ((fnv1a b, vb), false)])

/-- At most one of the versions may be installed. -/
def atMostOneVersion (b : ConstraintBuilder) (name : List UInt8) (versions : List UInt16) :
    Bool × ConstraintBuilder :=
  if !strictlyIncreasing versions then (false, b)
  else b.transact (exclude (fnv1a name) versions)

end ConstraintBuilder

/-! ## Requests -/

/-- A call of the builder. -/
inductive Request
  | require (name : List UInt8) (ver : UInt16)
  | dependency (a : List UInt8) (va : UInt16) (b : List UInt8) (vbOptions : List UInt16)
  | conflict (a : List UInt8) (va : UInt16) (b : List UInt8) (vb : UInt16)
  | atMostOneVersion (name : List UInt8) (versions : List UInt16)
deriving DecidableEq

namespace Request

/-- A call of the builder with the arguments of the request. -/
def issue (b : ConstraintBuilder) : Request → Bool × ConstraintBuilder
  | .require name ver => b.require name ver
  | .dependency a va b' vbOptions => b.dependency a va b' vbOptions
  | .conflict a va b' vb => b.conflict a va b' vb
  | .atMostOneVersion name versions => b.atMostOneVersion name versions

/-- Issues the requests one after the other: whether all were accepted, and the builder. -/
def issueAll (b : ConstraintBuilder) : List Request → Bool × ConstraintBuilder
  | [] => (true, b)
  | request :: rest =>
    let (accepted, b) := request.issue b
    let (others, b) := issueAll b rest
    (accepted && others, b)

/-- The requests are issued to a new builder, solved, and the selection is extracted. -/
def resolve (fuel : Nat) (requests : List Request) : Option (SolveResult × VariableRegistry) :=
  let b := (issueAll .new requests).2
  match b.solver.solve fuel with
  | none => none
  | some (result, solver) => some (result, b.registry.extractSelection solver)

/-- What the builder checks of the arguments before it touches anything. -/
def Valid : Request → Prop
  | .require _ _ => True
  | .dependency _ _ _ vbOptions =>
    vbOptions ≠ [] ∧ vbOptions.length < maxClauseLen ∧ strictlyIncreasing vbOptions = true
  | .conflict _ _ _ _ => True
  | .atMostOneVersion _ versions => strictlyIncreasing versions = true

/-- A selection of package versions meets the request. -/
def Holds (selection : PkgKey → Bool) : Request → Prop
  | .require name ver => selection (fnv1a name, ver) = true
  | .dependency a va b vbOptions =>
    selection (fnv1a a, va) = true → ∃ vb ∈ vbOptions, selection (fnv1a b, vb) = true
  | .conflict a va b vb =>
    ¬ (selection (fnv1a a, va) = true ∧ selection (fnv1a b, vb) = true)
  | .atMostOneVersion name versions =>
    ∀ v ∈ versions, ∀ w ∈ versions, selection (fnv1a name, v) = true →
      selection (fnv1a name, w) = true → v = w

/-- The unordered pairs of a list, as the nested loops visit them. -/
def pairs : List UInt16 → List (UInt16 × UInt16)
  | [] => []
  | version :: rest => rest.map (version, ·) ++ pairs rest

/-- The clauses of a request over package versions. -/
def formula : Request → List (List (PkgKey × Bool))
  | .require name ver => [[((fnv1a name, ver), true)]]
  | .dependency a va b vbOptions =>
    [((fnv1a a, va), false) :: vbOptions.reverse.map fun version => ((fnv1a b, version), true)]
  | .conflict a va b vb => [[((fnv1a a, va), false), ((fnv1a b, vb), false)]]
  | .atMostOneVersion name versions =>
    (pairs versions).map fun pair => [((fnv1a name, pair.1), false), ((fnv1a name, pair.2), false)]

/-- The package versions in the order in which the requests first mention them to the builder. -/
def firstMentions (requests : List Request) : List PkgKey :=
  ((requests.flatMap formula).flatten.map Prod.fst).eraseDups

end Request

end Sisyphus.Alchemist
