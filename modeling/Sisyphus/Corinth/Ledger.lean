import Sisyphus.Foundation.Ensures
import Sisyphus.Foundation.Words

/-!
# The package ledger

A model of `pkg.rs` of corinth.  The ledger has the installed packages, by ascending name hash, and
a generation.  A transaction is a copy of the packages that is edited on its own.  It carries the
authority that the ledger had when it was opened, and the ledger accepts it as long as it still has
that authority.

The arrays of the source, with their counts, are lists.  `find_name` is a binary search, and is
given here by what it returns on a list that is in order, which every list of packages is.
-/

set_option autoImplicit false

namespace Sisyphus.Corinth

open Fallible Words

def maxInstalledPackages : Nat := 128

structure ResolvedPackage where
  nameHash : UInt64
  versionIdx : UInt16
  deriving DecidableEq

structure TransactionAuthority where
  generation : UInt64
  stateDigest : UInt64
  deriving DecidableEq

structure TransactionReceipt where
  previous : TransactionAuthority
  current : TransactionAuthority
  installed : Nat
  removed : Nat
  upgraded : Nat
  deriving DecidableEq

inductive PackageError where
  | staleAuthority
  | generationExhausted
  | capacityExhausted
  | packageAlreadyInstalled
  | packageNotInstalled
  | versionPreconditionFailed
  | contradictoryIntent
  | contradictorySelection
  | invalidResolverState
  | transactionSealed
  deriving DecidableEq

/-- A variable of the resolver, which is a version of a package. -/
structure PkgVar where
  nameHash : UInt64
  versionIdx : UInt16
  selected : Bool
  deriving DecidableEq

structure VariableRegistry where
  vars : List PkgVar
  count : UInt16
  deriving DecidableEq

/-! ## Lists of packages -/

/-- The index of a name, or the one at which it belongs. -/
def findName (packages : List ResolvedPackage) (nameHash : UInt64) : Except Nat Nat :=
  let index := packages.findIdx fun package => nameHash ≤ package.nameHash
  if packages[index]?.any fun package => package.nameHash == nameHash then .ok index
  else .error index

def canonical : List ResolvedPackage → Bool
  | first :: second :: rest => first.nameHash < second.nameHash && canonical (second :: rest)
  | _ => true

def stateDigest (packages : List ResolvedPackage) : UInt64 :=
  packages.foldl (fun digest package =>
    ((digest ^^^ package.nameHash) * 0x100000001b3 ^^^ package.versionIdx.toUInt64) * 0x100000001b3)
    (0xcbf29ce484222325 ^^^ UInt64.ofNat packages.length)

structure Delta where
  installed : Nat
  removed : Nat
  upgraded : Nat
  deriving DecidableEq

/-- The loop of `delta`, which takes at most as many turns as both lists have packages. -/
def deltaLoop : Nat → List ResolvedPackage → List ResolvedPackage → Delta → Delta
  | 0, _, _, counts => counts
  | _ + 1, [], [], counts => counts
  | fuel + 1, [], _ :: right, counts =>
    deltaLoop fuel [] right { counts with installed := counts.installed + 1 }
  | fuel + 1, _ :: left, [], counts =>
    deltaLoop fuel left [] { counts with removed := counts.removed + 1 }
  | fuel + 1, before :: left, after :: right, counts =>
    if before.nameHash < after.nameHash then
      deltaLoop fuel left (after :: right) { counts with removed := counts.removed + 1 }
    else if before.nameHash > after.nameHash then
      deltaLoop fuel (before :: left) right { counts with installed := counts.installed + 1 }
    else
      deltaLoop fuel left right { counts with
        upgraded := counts.upgraded + if before.versionIdx ≠ after.versionIdx then 1 else 0 }

def delta (before after : List ResolvedPackage) : Delta :=
  deltaLoop (before.length + after.length) before after ⟨0, 0, 0⟩

def insertAt (packages : List ResolvedPackage) (index : Nat) (package : ResolvedPackage) :
    Except PackageError (List ResolvedPackage) :=
  if packages.length = maxInstalledPackages then .error .capacityExhausted
  else .ok (packages.insertIdx index package)

def removeAt (packages : List ResolvedPackage) (index : Nat) : List ResolvedPackage :=
  packages.eraseIdx index

/-! ## Transactions -/

structure PackageTransaction where
  base : TransactionAuthority
  packages : List ResolvedPackage
  touchedNames : List UInt64
  isSealed : Bool
  deriving DecidableEq

namespace PackageTransaction

abbrev Method := EStateM PackageError PackageTransaction Unit

def prepareIntent (nameHash : UInt64) : Method := do
  let transaction ← get
  refuse transaction.isSealed .transactionSealed
  refuse (transaction.touchedNames.contains nameHash) .contradictoryIntent

def recordIntent (nameHash : UInt64) : Method :=
  modify fun transaction =>
    { transaction with touchedNames := transaction.touchedNames ++ [nameHash] }

def install (package : ResolvedPackage) : Method := do
  prepareIntent package.nameHash
  let transaction ← get
  match findName transaction.packages package.nameHash with
  | .ok _ => throw .packageAlreadyInstalled
  | .error index =>
    let packages ← propagate (insertAt transaction.packages index package)
    set { transaction with packages }
    recordIntent package.nameHash

/-- The index of a package that is installed in the version expected. -/
def findVersion (packages : List ResolvedPackage) (nameHash : UInt64) (expectedVersion : UInt16) :
    Except PackageError Nat :=
  match findName packages nameHash with
  | .error _ => .error .packageNotInstalled
  | .ok index =>
    if packages[index]?.any fun package => package.versionIdx != expectedVersion then
      .error .versionPreconditionFailed
    else .ok index

def remove (nameHash : UInt64) (expectedVersion : UInt16) : Method := do
  prepareIntent nameHash
  let transaction ← get
  let index ← propagate (findVersion transaction.packages nameHash expectedVersion)
  set { transaction with packages := removeAt transaction.packages index }
  recordIntent nameHash

def upgrade (nameHash : UInt64) (expectedVersion replacementVersion : UInt16) : Method := do
  prepareIntent nameHash
  let transaction ← get
  let index ← propagate (findVersion transaction.packages nameHash expectedVersion)
  set { transaction with
    packages := transaction.packages.modify index fun package =>
      { package with versionIdx := replacementVersion } }
  recordIntent nameHash

/-- A turn of the loop of `reconcile_selection`. -/
def insertSelected (packages : List ResolvedPackage) (selected : PkgVar) :
    Except PackageError (List ResolvedPackage) :=
  match findName packages selected.nameHash with
  | .ok _ => .error .contradictorySelection
  | .error index =>
    insertAt packages index { nameHash := selected.nameHash, versionIdx := selected.versionIdx }

/-- The candidate is put back as it was when a turn of the loop fails. -/
def reconcileSelection (registry : VariableRegistry) : Method := do
  let checkpoint ← get
  refuse checkpoint.isSealed .transactionSealed
  refuse (!checkpoint.touchedNames.isEmpty) .contradictoryIntent
  refuse (registry.count.toNat > registry.vars.length) .invalidResolverState
  let selected := (registry.vars.take registry.count.toNat).filter PkgVar.selected
  let packages ← propagate (selected.foldlM insertSelected [])
  set { checkpoint with packages, isSealed := true }

end PackageTransaction

/-! ## The ledger -/

structure PackageLedger where
  packages : List ResolvedPackage
  generation : UInt64
  deriving DecidableEq

namespace PackageLedger

def new : PackageLedger := { packages := [], generation := 0 }

def authority (ledger : PackageLedger) : TransactionAuthority :=
  { generation := ledger.generation, stateDigest := Corinth.stateDigest ledger.packages }

def versionOf (ledger : PackageLedger) (nameHash : UInt64) : Option UInt16 :=
  match findName ledger.packages nameHash with
  | .ok index => ledger.packages[index]?.map ResolvedPackage.versionIdx
  | .error _ => none

def begin (ledger : PackageLedger) (authority : TransactionAuthority) :
    Except PackageError PackageTransaction :=
  if authority ≠ ledger.authority then .error .staleAuthority
  else .ok { base := authority, packages := ledger.packages, touchedNames := [], isSealed := false }

def commit (transaction : PackageTransaction) :
    EStateM PackageError PackageLedger TransactionReceipt := do
  let ledger ← get
  let previous := ledger.authority
  refuse (transaction.base != previous) .staleAuthority
  refuse (!canonical transaction.packages) .contradictorySelection
  let counts := delta ledger.packages transaction.packages
  if counts = ⟨0, 0, 0⟩ then
    return { previous, current := previous, installed := 0, removed := 0, upgraded := 0 }
  else
    let generation ← orThrow (checkedSucc ledger.generation) .generationExhausted
    set ({ packages := transaction.packages, generation } : PackageLedger)
    return {
      previous
      current := PackageLedger.authority { packages := transaction.packages, generation }
      installed := counts.installed
      removed := counts.removed
      upgraded := counts.upgraded }

end PackageLedger

/-! ## Interleaved transactions -/

inductive Edit where
  | install (package : ResolvedPackage)
  | remove (nameHash : UInt64) (expectedVersion : UInt16)
  | upgrade (nameHash : UInt64) (expectedVersion replacementVersion : UInt16)
  | reconcileSelection (registry : VariableRegistry)
  deriving DecidableEq

def Edit.run : Edit → PackageTransaction.Method
  | .install package => PackageTransaction.install package
  | .remove nameHash expectedVersion => PackageTransaction.remove nameHash expectedVersion
  | .upgrade nameHash expectedVersion replacementVersion =>
    PackageTransaction.upgrade nameHash expectedVersion replacementVersion
  | .reconcileSelection registry => PackageTransaction.reconcileSelection registry

/-- The transaction that a call leaves, whether it succeeds or not. -/
def Edit.apply (transaction : PackageTransaction) (edit : Edit) : PackageTransaction :=
  match edit.run transaction with
  | .ok _ next => next
  | .error _ next => next

/-- A transaction, with the calls that were made on it and the ledgers that were current since it
was opened. -/
structure Session where
  transaction : PackageTransaction
  script : List Edit
  seen : List PackageLedger
  deriving DecidableEq

/-- The ledger with all transactions, and the scripts of those that were committed.  A transaction
can be copied, and committing it takes a copy. -/
structure System where
  ledger : PackageLedger
  sessions : List (Option Session)
  committed : List (List Edit)
  deriving DecidableEq

namespace System

inductive Action where
  | begin (authority : TransactionAuthority)
  | edit (id : Nat) (edit : Edit)
  | commit (id : Nat)
  | drop (id : Nat)
  | copy (id : Nat)
  deriving DecidableEq

inductive Answer where
  | opened (id : Nat)
  | receipt (receipt : TransactionReceipt)
  | done
  | noSuchTransaction
  deriving DecidableEq

def new : System := { ledger := .new, sessions := [], committed := [] }

def session (s : System) (id : Nat) : Option Session := s.sessions[id]?.join

/-- Every transaction there is sees the new ledger. -/
def publish (s : System) (ledger : PackageLedger) (script : List Edit) : System where
  ledger
  sessions := s.sessions.map fun session =>
    session.map fun session => { session with seen := session.seen ++ [ledger] }
  committed := s.committed ++ [script]

def perform (s : System) : Action → Except PackageError Answer × System
  | .begin authority =>
    match s.ledger.begin authority with
    | .error e => (.error e, s)
    | .ok transaction =>
      (.ok (.opened s.sessions.length), { s with
        sessions := s.sessions ++ [some { transaction, script := [], seen := [s.ledger] }] })
  | .edit id edit =>
    match s.session id with
    | none => (.ok .noSuchTransaction, s)
    | some session =>
      (match edit.run session.transaction with
        | .ok _ _ => .ok .done
        | .error e _ => .error e,
      { s with sessions := s.sessions.set id (some { session with
          transaction := edit.apply session.transaction
          script := session.script ++ [edit] }) })
  | .commit id =>
    match s.session id with
    | none => (.ok .noSuchTransaction, s)
    | some session =>
      match PackageLedger.commit session.transaction s.ledger with
      | .ok receipt ledger => (.ok (.receipt receipt), s.publish ledger session.script)
      | .error e ledger => (.error e, { s with ledger })
  | .drop id => (.ok .done, { s with sessions := s.sessions.set id none })
  | .copy id =>
    match s.session id with
    | none => (.ok .noSuchTransaction, s)
    | some session =>
      (.ok (.opened s.sessions.length), { s with sessions := s.sessions ++ [some session] })

end System

/-! ## One transaction at a time -/

/-- Opens a transaction with the authority of the ledger, makes the calls and commits. -/
def serially (ledger : PackageLedger) (script : List Edit) :
    Except PackageError TransactionReceipt × PackageLedger :=
  match ledger.begin ledger.authority with
  | .error e => (.error e, ledger)
  | .ok transaction =>
    match PackageLedger.commit (script.foldl Edit.apply transaction) ledger with
    | .ok receipt ledger => (.ok receipt, ledger)
    | .error e ledger => (.error e, ledger)

end Sisyphus.Corinth
