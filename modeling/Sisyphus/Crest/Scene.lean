import Sisyphus.Foundation.Ensures
import Sisyphus.Foundation.Run
import Sisyphus.Foundation.Words

/-!
# The quantum scene

A scene is a fixed table of nodes.  `spawn` puts a node into a free slot, stores the rights and the
expiry epoch that were asked for in the slot, and returns a lease: a token, the rights and the
expiry.  The token names the slot and its generation and carries a 32-bit tag over the slot, the
node's surface and owner and the *stored* rights.

A lease is a plain record that its holder can rewrite.  Every use of one goes through
`validateLease`, which looks up the token and compares the lease's own rights and expiry with the
stored ones.  `attenuate` returns a lease with fewer rights or an earlier expiry under the same
token, and stores nothing.

The epoch counts the changes of the scene.  The hash that `commit` reports is modelled; hit testing
and the copy for the painter do not change the scene and are left out.
-/

set_option autoImplicit false

namespace Sisyphus.Crest

open Fallible Function Words

/-! ## Rights, tokens and nodes -/

def sceneRightObserve : UInt32 := (1 : UInt32) <<< 0
def sceneRightMove : UInt32 := (1 : UInt32) <<< 1
def sceneRightResize : UInt32 := (1 : UInt32) <<< 2
def sceneRightStyle : UInt32 := (1 : UInt32) <<< 3
def sceneRightFocus : UInt32 := (1 : UInt32) <<< 4
def sceneRightDestroy : UInt32 := (1 : UInt32) <<< 5
def sceneRightDelegate : UInt32 := (1 : UInt32) <<< 31

def sceneRightAll : UInt32 :=
  sceneRightObserve ||| sceneRightMove ||| sceneRightResize ||| sceneRightStyle |||
    sceneRightFocus ||| sceneRightDestroy ||| sceneRightDelegate

structure SceneToken where
  raw : UInt64
  deriving DecidableEq

namespace SceneToken

/-- `SceneToken::INVALID`. -/
def invalid : SceneToken := ⟨0⟩

def new (slot generation : UInt16) (tag : UInt32) : SceneToken :=
  ⟨slot.toUInt64 ||| (generation.toUInt64 <<< 16) ||| (tag.toUInt64 <<< 32)⟩

def slot (t : SceneToken) : Nat := t.raw.toUInt16.toNat

def generation (t : SceneToken) : UInt16 := (t.raw >>> 16).toUInt16

def tag (t : SceneToken) : UInt32 := (t.raw >>> 32).toUInt32

end SceneToken

inductive SemanticRole where
  | desktop
  | application
  | dialog
  | panel
  | notification
  | cursor
  | diagnostic
  | recovery
  | portal
  deriving DecidableEq

/-- `role as u8`. -/
def SemanticRole.code : SemanticRole → UInt64
  | .desktop => 1
  | .application => 2
  | .dialog => 3
  | .panel => 4
  | .notification => 5
  | .cursor => 6
  | .diagnostic => 7
  | .recovery => 8
  | .portal => 9

structure Rectangle where
  x : Int32
  y : Int32
  width : UInt32
  height : UInt32

/-- A node, with its surface as the number in the `SurfaceId` and its colour hint as the word its
four bytes spell. -/
structure SceneNode where
  surface : UInt64
  owner : UInt64
  rectangle : Rectangle
  z : Int32
  opacityQ16 : UInt16
  phaseQ16 : UInt16
  role : SemanticRole
  flags : UInt32
  colorHint : UInt32
  semanticTag : UInt64

inductive SceneError where
  | zeroCapacity
  | invalidNode
  | duplicateSurface
  | capacity
  | invalidToken
  | forgedToken
  | staleToken
  | leaseExpired
  | missingRight
  | rightsAmplification
  | invalidMutation
  | mutationCapacity
  | epochConflict
  deriving DecidableEq

def SceneNode.validate (n : SceneNode) : Except SceneError Unit :=
  if n.surface = 0 ∨ n.owner = 0 ∨ n.rectangle.width = 0 ∨ n.rectangle.height = 0 ∨
      n.rectangle.width > 16384 ∨ n.rectangle.height > 16384 ∨ n.opacityQ16 = 0 then
    .error .invalidNode
  else
    .ok ()

structure SceneLease where
  token : SceneToken
  rights : UInt32
  expiresEpoch : UInt64
  deriving DecidableEq

/-! ## Mutations -/

/-- What a mutation does to the node its token names. -/
inductive Edit where
  | move (x y : Int32)
  | resize (width height : UInt32)
  | restack (z : Int32)
  | setOpacity (opacityQ16 : UInt16)
  | setPhase (phaseQ16 : UInt16)
  | setFlags (clear set : UInt32)
  | setSemanticTag (semanticTag : UInt64)

structure SceneMutation where
  token : SceneToken
  edit : Edit

def SceneMutation.requiredRight (m : SceneMutation) : UInt32 :=
  match m.edit with
  | .move _ _ | .restack _ => sceneRightMove
  | .resize _ _ => sceneRightResize
  | .setOpacity _ | .setPhase _ | .setFlags _ _ | .setSemanticTag _ => sceneRightStyle

/-- `apply_mutation`. -/
def applyMutation (node : SceneNode) (m : SceneMutation) : Except SceneError SceneNode :=
  match m.edit with
  | .move x y => .ok { node with rectangle := { node.rectangle with x := x, y := y } }
  | .resize width height =>
    if width = 0 ∨ height = 0 then .error .invalidMutation
    else .ok { node with rectangle := { node.rectangle with width := width, height := height } }
  | .restack z => .ok { node with z := z }
  | .setOpacity opacity =>
    if opacity = 0 then .error .invalidMutation else .ok { node with opacityQ16 := opacity }
  | .setPhase phase => .ok { node with phaseQ16 := phase }
  | .setFlags clear set =>
    if clear &&& set ≠ 0 then .error .invalidMutation
    else .ok { node with flags := (node.flags &&& ~~~clear) ||| set }
  | .setSemanticTag tag => .ok { node with semanticTag := tag }

/-- A transaction, with its capacity `M` as a field. -/
structure SceneTransaction where
  capacity : Nat
  expectedEpoch : UInt64
  mutations : List SceneMutation
  length_le : mutations.length ≤ capacity

def SceneTransaction.new (capacity : Nat) (expectedEpoch : UInt64) : SceneTransaction :=
  ⟨capacity, expectedEpoch, [], Nat.zero_le _⟩

structure DirtyRectangle where
  before : Rectangle
  after : Rectangle

/-- What a commit reports; the first `mutation_count` dirty rectangles are the ones written. -/
structure SceneCommit where
  epoch : UInt64
  root : UInt64
  mutationCount : Nat
  dirty : List DirtyRectangle

/-! ## The table -/

structure SceneSlot where
  occupied : Bool
  generation : UInt16
  rights : UInt32
  expiresEpoch : UInt64
  tag : UInt32
  node : SceneNode

/-- `SceneSlot::EMPTY`. -/
def SceneSlot.empty : SceneSlot where
  occupied := false
  generation := 1
  rights := 0
  expiresEpoch := 0
  tag := 0
  node :=
    { surface := 0
      owner := 0
      rectangle := ⟨0, 0, 0, 0⟩
      z := 0
      opacityQ16 := 0
      phaseQ16 := 0
      role := .desktop
      flags := 0
      colorHint := 0
      semanticTag := 0 }

def mix (state word : UInt64) : UInt64 := Words.splitMix state word

def tokenTag (secret : UInt64) (index : Nat) (generation : UInt16) (surface owner : UInt64)
    (rights : UInt32) : UInt32 :=
  let state := mix secret (UInt64.ofNat index)
  let state := mix state generation.toUInt64
  let state := mix state surface
  let state := mix state owner
  let state := mix state rights.toUInt64
  (state ^^^ (state >>> 32)).toUInt32

structure QuantumScene (n : Nat) where
  secret : UInt64
  epoch : UInt64
  slots : Fin n → SceneSlot
  count : Nat

/-- `self.epoch.wrapping_add(1).max(1)`. -/
def nextEpoch (epoch : UInt64) : UInt64 := wrappingSucc epoch

section Validation

variable {n : Nat}

/-- `validate_token_in`. -/
def validateTokenIn (slots : Fin n → SceneSlot) (secret : UInt64) (token : SceneToken) :
    Except SceneError (Fin n) :=
  if token = SceneToken.invalid then
    .error .invalidToken
  else if h : token.slot < n then
    let slot := slots ⟨token.slot, h⟩
    let expected :=
      tokenTag secret token.slot slot.generation slot.node.surface slot.node.owner slot.rights
    if slot.occupied = false ∨ slot.generation ≠ token.generation then
      .error .staleToken
    else if token.tag ≠ expected ∨ slot.tag ≠ expected then
      .error .forgedToken
    else
      .ok ⟨token.slot, h⟩
  else
    .error .invalidToken

/-- `validate_lease`. -/
def QuantumScene.validateLease (s : QuantumScene n) (lease : SceneLease) (requiredRight : UInt32) :
    Except SceneError (Fin n) :=
  match validateTokenIn s.slots s.secret lease.token with
  | .error e => .error e
  | .ok index =>
    if lease.expiresEpoch ≤ s.epoch ∨ (s.slots index).expiresEpoch < lease.expiresEpoch then
      .error .leaseExpired
    else if lease.rights &&& ~~~(s.slots index).rights ≠ 0 then
      .error .rightsAmplification
    else if lease.rights &&& requiredRight ≠ requiredRight then
      .error .missingRight
    else
      .ok index

end Validation

namespace QuantumScene

variable {n : Nat}

def new (n : Nat) (secret : UInt64) : Except SceneError (QuantumScene n) :=
  if n = 0 ∨ secret = 0 then .error .zeroCapacity
  else .ok ⟨secret, 1, fun _ => SceneSlot.empty, 0⟩

abbrev Action (n : Nat) := EStateM SceneError (QuantumScene n)

def spawn (node : SceneNode) (rights : UInt32) (expiresEpoch : UInt64) : Action n SceneLease := do
  propagate node.validate
  let s ← get
  refuse (rights == 0 || expiresEpoch ≤ saturatingAdd s.epoch 1) .missingRight
  refuse ((List.finRange n).any fun i =>
    (s.slots i).occupied && (s.slots i).node.surface == node.surface) .duplicateSurface
  let index ← orThrow ((List.finRange n).find? fun i => !(s.slots i).occupied) .capacity
  let generation : UInt16 := max ((s.slots index).generation + 1) 1
  let tag := tokenTag s.secret index generation node.surface node.owner rights
  let slot : SceneSlot := ⟨true, generation, rights, expiresEpoch, tag, node⟩
  set { s with
    slots := update s.slots index slot
    count := s.count + 1
    epoch := nextEpoch s.epoch : QuantumScene n }
  pure ⟨SceneToken.new (UInt16.ofNat index) generation tag, rights, expiresEpoch⟩

def attenuate (s : QuantumScene n) (parent : SceneLease) (rights : UInt32)
    (expiresEpoch : UInt64) : Except SceneError SceneLease :=
  match s.validateLease parent 0 with
  | .error e => .error e
  | .ok index =>
    if rights = 0 ∨ rights &&& ~~~parent.rights ≠ 0 then
      .error .rightsAmplification
    else if (s.slots index).expiresEpoch < expiresEpoch ∨ expiresEpoch ≤ s.epoch then
      .error .leaseExpired
    else
      .ok ⟨parent.token, rights, expiresEpoch⟩

def node (s : QuantumScene n) (lease : SceneLease) : Except SceneError SceneNode :=
  match s.validateLease lease sceneRightObserve with
  | .error e => .error e
  | .ok index => .ok (s.slots index).node

def destroy (lease : SceneLease) : Action n SceneNode := do
  let s ← get
  let index ← propagate (s.validateLease lease sceneRightDestroy)
  let slot := { SceneSlot.empty with generation := (s.slots index).generation }
  set { s with
    slots := update s.slots index slot
    count := s.count - 1
    epoch := nextEpoch s.epoch : QuantumScene n }
  pure (s.slots index).node

/-- What a mutation makes of the node it names, once it is allowed. -/
def edited (node : SceneNode) (m : SceneMutation) : Except SceneError SceneNode :=
  match applyMutation node m with
  | .error e => .error e
  | .ok node' =>
    match node'.validate with
    | .error e => .error e
    | .ok _ => .ok node'

/-- The first lease with a token, or `MissingRight`. -/
def leaseFor (leases : List SceneLease) (token : SceneToken) : Except SceneError SceneLease :=
  match leases.find? fun lease => lease.token = token with
  | some lease => .ok lease
  | none => .error .missingRight

/-- One turn of the loop of `commit`, on the staged slots. -/
def stage (s : QuantumScene n) (leases : List SceneLease) (staged : Fin n → SceneSlot)
    (m : SceneMutation) : Except SceneError ((Fin n → SceneSlot) × DirtyRectangle) := do
  let lease ← leaseFor leases m.token
  let _ ← s.validateLease lease m.requiredRight
  let index ← validateTokenIn staged s.secret m.token
  let node ← edited (staged index).node m
  .ok (update staged index { staged index with node := node },
    ⟨(staged index).node.rectangle, node.rectangle⟩)

/-- The loop of `commit`. -/
def stageAll (s : QuantumScene n) (leases : List SceneLease) (staged : Fin n → SceneSlot) :
    List SceneMutation → Except SceneError ((Fin n → SceneSlot) × List DirtyRectangle)
  | [] => .ok (staged, [])
  | m :: rest => do
    let head ← s.stage leases staged m
    let tail ← s.stageAll leases head.1 rest
    .ok (tail.1, head.2 :: tail.2)

/-- What `root` folds in for one slot. -/
def mixSlot (state : UInt64) (index : Nat) (slot : SceneSlot) : UInt64 :=
  [UInt64.ofNat index, slot.generation.toUInt64, slot.rights.toUInt64, slot.expiresEpoch,
    slot.node.surface, slot.node.owner, slot.node.rectangle.x.toUInt32.toUInt64,
    slot.node.rectangle.y.toUInt32.toUInt64, slot.node.rectangle.width.toUInt64,
    slot.node.rectangle.height.toUInt64, slot.node.z.toUInt32.toUInt64,
    slot.node.opacityQ16.toUInt64, slot.node.phaseQ16.toUInt64, slot.node.role.code,
    slot.node.flags.toUInt64, slot.node.semanticTag, slot.node.colorHint.toUInt64].foldl mix state

def root (s : QuantumScene n) : UInt64 :=
  (List.finRange n).foldl
    (fun state i => if (s.slots i).occupied then mixSlot state i (s.slots i) else state)
    (mix (mix s.secret s.epoch) (UInt64.ofNat s.count))

def commit (transaction : SceneTransaction) (leases : List SceneLease) : Action n SceneCommit := do
  let s ← get
  refuse (transaction.expectedEpoch != s.epoch) .epochConflict
  let staged ← propagate (s.stageAll leases s.slots transaction.mutations)
  let s' : QuantumScene n := { s with slots := staged.1, epoch := nextEpoch s.epoch }
  set s'
  pure ⟨s'.epoch, s'.root, transaction.mutations.length, staged.2⟩

/-! ## Runs -/

inductive Call where
  | spawn (node : SceneNode) (rights : UInt32) (expiresEpoch : UInt64)
  | destroy (lease : SceneLease)
  | commit (transaction : SceneTransaction) (leases : List SceneLease)

/-- The scene that a call leaves. -/
def after {α : Type} : EStateM.Result SceneError (QuantumScene n) α → QuantumScene n
  | .ok _ t => t
  | .error _ t => t

def step (s : QuantumScene n) : Call → Unit × QuantumScene n
  | .spawn node rights expiresEpoch => ((), after (spawn node rights expiresEpoch s))
  | .destroy lease => ((), after (destroy lease s))
  | .commit transaction leases => ((), after (commit transaction leases s))

/-- A scene that some calls have led to. -/
def Reachable (s : QuantumScene n) : Prop :=
  ∃ secret start calls, QuantumScene.new n secret = .ok start ∧ s = Run.final step start calls

end QuantumScene

end Sisyphus.Crest
