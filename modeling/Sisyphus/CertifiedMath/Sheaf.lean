import Sisyphus.Foundation.Fallible
import Sisyphus.Foundation.Run
import Sisyphus.Foundation.Words

/-!
# Gluing certificates

A model of `sheaf.rs`.  Owners install local sections on patches; `certify` compares the
restrictions of an owner's sections on every overlap of two patches, and `allow` accepts the
certificate as long as the epoch is the one it was issued in.  New patches, new overlaps and
revocations move the epoch. Installing a section does not.

`History` keeps, for each certificate, the patches that its owner has installed since.  On the
overlaps of the other patches the sections still agree when `allow` succeeds, so what `allow` needs
is agreement on the overlaps that were touched.
-/

set_option autoImplicit false

namespace Sisyphus.CertifiedMath

open Fallible List Run UInt64

def mix (state word : UInt64) : UInt64 := Words.splitMix state word

def countOnes (word : UInt64) : Nat := (List.range 64).countP word.toNat.testBit

inductive SheafError
  | capacity
  | unknownOpen
  | duplicateOpen
  | duplicateOverlap
  | invalidDimension
  | invalidLinearMap
  | globalDimension
  | staleEpoch
  | missingSection
  | zeroSecret
  deriving DecidableEq

/-! ## Restriction maps -/

structure BinaryLinearMap where
  inputDimension : UInt8
  outputDimension : UInt8
  rows : Fin 64 → UInt64

def dimensionMask (dimension : UInt8) : UInt64 :=
  if 64 ≤ dimension then 0xffffffffffffffff
  else if dimension = 0 then 0
  else (1 <<< dimension.toUInt64) - 1

namespace BinaryLinearMap

variable (self : BinaryLinearMap)

def validate : Except SheafError Unit := do
  reject (decide (64 < self.inputDimension ∨ 64 < self.outputDimension)) .invalidDimension
  let inputMask := dimensionMask self.inputDimension
  reject ((List.finRange 64).any fun row => if row.val < self.outputDimension.toNat then
    self.rows row &&& ~~~inputMask != 0 else self.rows row != 0) .invalidLinearMap

def apply (input : UInt64) : Except SheafError UInt64 := do
  self.validate
  let input := input &&& dimensionMask self.inputDimension
  pure (((List.finRange 64).take self.outputDimension.toNat).foldl (fun output row =>
    output ||| (UInt64.ofNat (countOnes (self.rows row &&& input) % 2) <<< UInt64.ofNat row)) 0)

end BinaryLinearMap

/-! ## The sheaf -/

structure SheafOpen where
  id : UInt16
  geometryKey : UInt64
  stalkDimension : UInt8
  flags : UInt32

structure SheafOverlap where
  id : UInt16
  left : UInt16
  right : UInt16
  stalkDimension : UInt8
  restrictLeft : BinaryLinearMap
  restrictRight : BinaryLinearMap
  geometryKey : UInt64

structure LocalSection where
  owner : UInt64
  openId : UInt16
  value : UInt64
  epoch : UInt64

def LocalSection.isFor (owner : UInt64) (openId : UInt16) (s : LocalSection) : Bool :=
  s.owner == owner && s.openId == openId

structure GlueCertificate where
  owner : UInt64
  epoch : UInt64
  checkedOverlaps : UInt16
  incompleteOverlaps : UInt16
  nonzeroObstructions : UInt16
  obstructionWeight : UInt32
  firstFailure : UInt16
  obstructionRoot : UInt64
  globalSectionDimension : UInt8
  root : UInt64
  deriving DecidableEq

def certificateRoot (secret : UInt64) (certificate : GlueCertificate) : UInt64 :=
  [certificate.owner, certificate.epoch,
    certificate.checkedOverlaps.toUInt64 ||| (certificate.incompleteOverlaps.toUInt64 <<< 16) |||
      (certificate.nonzeroObstructions.toUInt64 <<< 32),
    certificate.obstructionWeight.toUInt64, certificate.firstFailure.toUInt64,
    certificate.obstructionRoot, certificate.globalSectionDimension.toUInt64].foldl mix secret

def GlueCertificate.glued (self : GlueCertificate) : Bool :=
  self.incompleteOverlaps == 0 && self.nonzeroObstructions == 0

def GlueCertificate.verify (self : GlueCertificate) (secret : UInt64) : Bool :=
  self.root == certificateRoot secret self

/-- The arrays with their counts are lists. -/
structure CellularCapabilitySheaf where
  opens : List SheafOpen
  overlaps : List SheafOverlap
  sections : List LocalSection
  epoch : UInt64
  secret : UInt64

/-- `epoch.wrapping_add(1).max(1)`. -/
def nextEpoch (epoch : UInt64) : UInt64 := Words.wrappingSucc epoch

/-- `saturating_add(1)` on a counter. -/
def saturatingSucc (count : UInt16) : UInt16 := if count = 0xffff then count else count + 1

/-- One column of `binary_rank`, on the rows and the rank so far. -/
def eliminate (state : List UInt64 × Nat) (column : Nat) : List UInt64 × Nat :=
  let (rows, rank) := state
  let bit : UInt64 := 1 <<< UInt64.ofNat column
  match (List.range rows.length).find? fun row => rank ≤ row && rows[row]?.getD 0 &&& bit != 0 with
  | none => state
  | some pivot =>
    let chosen := rows[pivot]?.getD 0
    let rows := (rows.set pivot (rows[rank]?.getD 0)).set rank chosen
    (rows.mapIdx fun row word => if row ≠ rank ∧ word &&& bit ≠ 0 then word ^^^ chosen else word,
      rank + 1)

def binaryRank (rows : List UInt64) (columnCount : Nat) : Nat :=
  ((List.range columnCount).foldl eliminate (rows, 0)).2

namespace CellularCapabilitySheaf

variable (self : CellularCapabilitySheaf)

/-- A sheaf without patches, in its first epoch. -/
def empty (secret : UInt64) : CellularCapabilitySheaf := ⟨[], [], [], 1, secret⟩

def new (secret : UInt64) : Except SheafError CellularCapabilitySheaf :=
  if secret = 0 then .error .zeroSecret else .ok (empty secret)

/-- `open`. -/
def openRecord (id : UInt16) : Except SheafError SheafOpen :=
  okOr (self.opens[id.toNat]?.filter (·.id == id)) .unknownOpen

/-- `section`. -/
def sectionOf (owner : UInt64) (openId : UInt16) : Option LocalSection :=
  self.sections.find? (LocalSection.isFor owner openId)

def addOpen (geometryKey : UInt64) (stalkDimension : UInt8) (flags : UInt32) :
    Except SheafError CellularCapabilitySheaf := do
  reject (decide (stalkDimension = 0 ∨ 64 < stalkDimension)) .invalidDimension
  reject (self.opens.any (·.geometryKey == geometryKey)) .duplicateOpen
  reject (decide (32 ≤ self.opens.length)) .capacity
  let id := UInt16.ofNat self.opens.length
  pure { self with opens := self.opens ++ [⟨id, geometryKey, stalkDimension, flags⟩]
                   epoch := nextEpoch self.epoch }

def addOverlap (left right : UInt16) (geometryKey : UInt64)
    (restrictLeft restrictRight : BinaryLinearMap) : Except SheafError CellularCapabilitySheaf := do
  reject (left == right) .duplicateOverlap
  let leftOpen ← self.openRecord left
  let rightOpen ← self.openRecord right
  restrictLeft.validate
  restrictRight.validate
  reject (restrictLeft.inputDimension != leftOpen.stalkDimension ||
    restrictRight.inputDimension != rightOpen.stalkDimension ||
    restrictLeft.outputDimension != restrictRight.outputDimension ||
    restrictLeft.outputDimension == 0) .invalidLinearMap
  let (canonicalLeft, canonicalRight) := if left < right then (left, right) else (right, left)
  reject (self.overlaps.any fun o => o.left == canonicalLeft && o.right == canonicalRight)
    .duplicateOverlap
  let (mapLeft, mapRight) :=
    if left = canonicalLeft then (restrictLeft, restrictRight) else (restrictRight, restrictLeft)
  reject (decide (64 ≤ self.overlaps.length)) .capacity
  pure { self with
    overlaps := self.overlaps ++ [⟨UInt16.ofNat self.overlaps.length, canonicalLeft,
      canonicalRight, mapLeft.outputDimension, mapLeft, mapRight, geometryKey⟩]
    epoch := nextEpoch self.epoch }

/-- The first section of the owner on the patch, overwritten in place. -/
def overwrite (owner : UInt64) (openId : UInt16) (value epoch : UInt64) :
    List LocalSection → Option (List LocalSection)
  | [] => none
  | s :: rest =>
    if s.isFor owner openId then some ({ s with value, epoch } :: rest)
    else (overwrite owner openId value epoch rest).map (s :: ·)

def install (owner : UInt64) (openId : UInt16) (value : UInt64) :
    Except SheafError CellularCapabilitySheaf := do
  let record ← self.openRecord openId
  let value := value &&& dimensionMask record.stalkDimension
  match overwrite owner openId value self.epoch self.sections with
  | some sections => pure { self with sections }
  | none =>
    reject (decide (96 ≤ self.sections.length)) .capacity
    pure { self with sections := self.sections ++ [⟨owner, openId, value, self.epoch⟩] }

/-- `revoke_owner` with `compact_sections`. -/
def revokeOwner (owner : UInt64) : CellularCapabilitySheaf :=
  { self with
    sections := (self.sections.map fun s => if s.owner = owner then ⟨0, 0xffff, 0, 0⟩ else s).filter
      (·.openId != 0xffff)
    epoch := nextEpoch self.epoch }

/-- The dimension of the opens before the one at an index. -/
def offset (index : Nat) : Nat := ((self.opens.take index).map (·.stalkDimension.toNat)).sum

def globalSectionDimension : Except SheafError UInt8 := do
  let total := self.offset self.opens.length
  reject (decide (64 < total)) .globalDimension
  let equations := self.overlaps.flatMap fun o =>
    (((List.finRange 64).take o.stalkDimension.toNat).map fun row =>
      (o.restrictLeft.rows row <<< UInt64.ofNat (self.offset o.left.toNat)) ^^^
        (o.restrictRight.rows row <<< UInt64.ofNat (self.offset o.right.toNat))).filter (· != 0)
  reject (decide (64 < equations.length)) .capacity
  pure (UInt8.ofNat (total - binaryRank equations total))

def firstFailureAt (certificate : GlueCertificate) (overlap : SheafOverlap) : UInt16 :=
  if certificate.firstFailure = 0xffff then overlap.id else certificate.firstFailure

/-- One turn of the loop of `certify`. -/
def certifyOverlap (owner : UInt64) (certificate : GlueCertificate) (overlap : SheafOverlap) :
    Except SheafError GlueCertificate :=
  match self.sectionOf owner overlap.left, self.sectionOf owner overlap.right with
  | some left, some right => do
    reject (left.epoch != self.epoch || right.epoch != self.epoch) .staleEpoch
    let leftImage ← overlap.restrictLeft.apply left.value
    let rightImage ← overlap.restrictRight.apply right.value
    let obstruction := leftImage ^^^ rightImage
    let weight := certificate.obstructionWeight.toNat + countOnes obstruction
    let certificate := { certificate with
      checkedOverlaps := saturatingSucc certificate.checkedOverlaps
      obstructionWeight := UInt32.ofNat (min weight 0xffffffff)
      obstructionRoot := mix certificate.obstructionRoot (overlap.geometryKey ^^^ obstruction) }
    if obstruction = 0 then pure certificate
    else pure { certificate with
      nonzeroObstructions := saturatingSucc certificate.nonzeroObstructions
      firstFailure := firstFailureAt certificate overlap }
  | _, _ =>
    pure { certificate with
      incompleteOverlaps := saturatingSucc certificate.incompleteOverlaps
      firstFailure := firstFailureAt certificate overlap
      obstructionRoot := mix certificate.obstructionRoot overlap.geometryKey }

def certify (owner : UInt64) : Except SheafError GlueCertificate := do
  let globalDimension ← self.globalSectionDimension
  let start : GlueCertificate :=
    ⟨owner, self.epoch, 0, 0, 0, 0, 0xffff, mix self.secret (owner ^^^ self.epoch),
      globalDimension, 0⟩
  let certificate ← self.overlaps.foldlM (self.certifyOverlap owner) start
  pure { certificate with root := certificateRoot self.secret certificate }

def allow (owner : UInt64) (openId : UInt16) (required : UInt64) (certificate : GlueCertificate) :
    Except SheafError Unit := do
  reject (!certificate.verify self.secret || certificate.owner != owner ||
    certificate.epoch != self.epoch || !certificate.glued) .missingSection
  let record ← self.openRecord openId
  let s ← okOr (self.sectionOf owner openId) .missingSection
  let required := required &&& dimensionMask record.stalkDimension
  reject (s.epoch != self.epoch || s.value &&& required != required) .missingSection

/-- The installed sections of an owner have one restriction to an overlap. -/
def Agrees (owner : UInt64) (overlap : SheafOverlap) : Prop :=
  ∀ left ∈ self.sectionOf owner overlap.left, ∀ right ∈ self.sectionOf owner overlap.right,
    ∃ image, overlap.restrictLeft.apply left.value = .ok image ∧
      overlap.restrictRight.apply right.value = .ok image

end CellularCapabilitySheaf

/-! ## Histories -/

/-- A certificate that was issued, the number of epoch changes before it, and the patches that its
owner has installed since. -/
structure Issue where
  certificate : GlueCertificate
  changes : Nat
  installed : List UInt16
  deriving DecidableEq

structure History where
  sheaf : CellularCapabilitySheaf
  changes : Nat
  issues : List Issue

inductive Call
  | addOpen (geometryKey : UInt64) (stalkDimension : UInt8) (flags : UInt32)
  | addOverlap (left right : UInt16) (geometryKey : UInt64)
      (restrictLeft restrictRight : BinaryLinearMap)
  | install (owner : UInt64) (openId : UInt16) (value : UInt64)
  | revokeOwner (owner : UInt64)
  | certify (owner : UInt64)
  | allow (owner : UInt64) (openId : UInt16) (required : UInt64) (certificate : GlueCertificate)

def Issue.afterInstall (owner : UInt64) (openId : UInt16) (issue : Issue) : Issue :=
  if issue.certificate.owner = owner then { issue with installed := openId :: issue.installed }
  else issue

/-- A call that fails changes nothing. -/
def History.step (h : History) : Call → Except SheafError Unit × History
  | .addOpen key dimension flags =>
    match h.sheaf.addOpen key dimension flags with
    | .ok sheaf => (.ok (), { h with sheaf, changes := h.changes + 1 })
    | .error e => (.error e, h)
  | .addOverlap left right key restrictLeft restrictRight =>
    match h.sheaf.addOverlap left right key restrictLeft restrictRight with
    | .ok sheaf => (.ok (), { h with sheaf, changes := h.changes + 1 })
    | .error e => (.error e, h)
  | .install owner openId value =>
    match h.sheaf.install owner openId value with
    | .ok sheaf => (.ok (), { h with sheaf, issues := h.issues.map (.afterInstall owner openId) })
    | .error e => (.error e, h)
  | .revokeOwner owner =>
    (.ok (), { h with sheaf := h.sheaf.revokeOwner owner, changes := h.changes + 1 })
  | .certify owner =>
    match h.sheaf.certify owner with
    | .ok certificate => (.ok (), { h with issues := ⟨certificate, h.changes, []⟩ :: h.issues })
    | .error e => (.error e, h)
  | .allow owner openId required certificate =>
    (h.sheaf.allow owner openId required certificate, h)

/-- What calls make of the sheaf that `new` answers with. -/
def after (secret : UInt64) (calls : List Call) : History :=
  final History.step ⟨.empty secret, 0, []⟩ calls

/-- The overlap is as it was when the certificate was issued: its owner has installed neither patch,
and the epoch has not gone round. -/
def Issue.Covers (issue : Issue) (h : History) (overlap : SheafOverlap) : Prop :=
  h.changes < issue.changes + (2 ^ 64 - 1) ∧ overlap.left ∉ issue.installed ∧
    overlap.right ∉ issue.installed

/-! ## What the calls do to an agreement -/

variable {sheaf sheaf' : CellularCapabilitySheaf} {owner owner' : UInt64} {openId : UInt16}
variable {overlap : SheafOverlap} {certificate certificate' : GlueCertificate}

theorem toNat_nextEpoch {epoch : UInt64} {n : Nat} (h : epoch.toNat = n % (2 ^ 64 - 1) + 1) :
    (nextEpoch epoch).toNat = (n + 1) % (2 ^ 64 - 1) + 1 := by
  rw [nextEpoch, Words.toNat_wrappingSucc]
  omega

theorem saturatingSucc_ne_zero (count : UInt16) : saturatingSucc count ≠ 0 := by
  unfold saturatingSucc
  split
  · simp_all
  · rename_i h
    exact fun hzero => h (by rw [← UInt16.add_sub_cancel (a := count) (b := 1), hzero]; decide)

/-- A section on another patch, or of another owner, is not written. -/
theorem find?_overwrite {value epoch : UInt64} {l l' : List LocalSection}
    (h : CellularCapabilitySheaf.overwrite owner openId value epoch l = some l')
    {p : LocalSection → Bool} (hp : ∀ s, s.isFor owner openId = true → p s = false) :
    l'.find? p = l.find? p := by
  induction l generalizing l' with
  | nil => cases h
  | cons s rest ih =>
    unfold CellularCapabilitySheaf.overwrite at h
    split at h
    · rename_i hs
      cases h
      simp only [find?_cons, hp s hs, hp { s with value, epoch } hs]
    · obtain ⟨rest', hrest, rfl⟩ := Option.map_eq_some_iff.1 h
      simp only [find?_cons, ih hrest]

theorem install_eq_ok {value : UInt64} (h : sheaf.install owner openId value = .ok sheaf') :
    sheaf'.overlaps = sheaf.overlaps ∧ sheaf'.epoch = sheaf.epoch ∧
      ∀ o p, (o = owner → p ≠ openId) → sheaf'.sectionOf o p = sheaf.sectionOf o p := by
  have hother (o : UInt64) (p : UInt16) (hne : o = owner → p ≠ openId) (s : LocalSection)
      (hs : s.isFor owner openId = true) : s.isFor o p = false := by
    simp only [LocalSection.isFor, Bool.and_eq_true, beq_iff_eq] at hs
    by_contra hfor
    simp only [LocalSection.isFor, Bool.not_eq_false, Bool.and_eq_true, beq_iff_eq] at hfor
    exact hne (hfor.1.symm.trans hs.1) (hfor.2.symm.trans hs.2)
  simp only [CellularCapabilitySheaf.install, except_bind_eq_ok] at h
  obtain ⟨record, -, h⟩ := h
  split at h
  · rename_i hsome
    cases h
    exact ⟨rfl, rfl, fun o p hne => find?_overwrite hsome (hother o p hne)⟩
  · obtain ⟨_, -, h⟩ := except_bind_eq_ok.1 h
    cases h
    refine ⟨rfl, rfl, fun o p hne => ?_⟩
    simp only [CellularCapabilitySheaf.sectionOf, find?_append]
    rw [find?_cons_of_neg, find?_nil, Option.or_none]
    rw [hother o p hne _ (by simp [LocalSection.isFor])]
    decide

theorem certifyOverlap_eq_ok
    (h : sheaf.certifyOverlap owner certificate overlap = .ok certificate') :
    certificate'.owner = certificate.owner ∧ certificate'.epoch = certificate.epoch ∧
      (certificate'.glued = true → certificate.glued = true ∧ sheaf.Agrees owner overlap) := by
  have hglued (c : GlueCertificate) : c.glued = true ↔
      c.incompleteOverlaps = 0 ∧ c.nonzeroObstructions = 0 := by
    simp [GlueCertificate.glued]
  unfold CellularCapabilitySheaf.certifyOverlap at h
  split at h
  · rename_i left right hleft hright
    simp only [except_bind_eq_ok] at h
    obtain ⟨_, -, leftImage, hl, rightImage, hr, h⟩ := h
    split at h <;> cases h
    · rename_i hzero
      obtain rfl : leftImage = rightImage := UInt64.xor_eq_zero_iff.1 hzero
      refine ⟨rfl, rfl, fun hg => ⟨hg, ?_⟩⟩
      rintro _ hleft' _ hright'
      cases hleft.symm.trans hleft'
      cases hright.symm.trans hright'
      exact ⟨leftImage, hl, hr⟩
    · exact ⟨rfl, rfl, fun hg => absurd ((hglued _).1 hg).2 (saturatingSucc_ne_zero _)⟩
  · cases h
    exact ⟨rfl, rfl, fun hg => absurd ((hglued _).1 hg).1 (saturatingSucc_ne_zero _)⟩

/-- A certificate says what it is for, and a glued one that the sections agree everywhere. -/
theorem certify_eq_ok (h : sheaf.certify owner = .ok certificate) :
    certificate.owner = owner ∧ certificate.epoch = sheaf.epoch ∧
      (certificate.glued = true → ∀ overlap ∈ sheaf.overlaps, sheaf.Agrees owner overlap) := by
  simp only [CellularCapabilitySheaf.certify, except_bind_eq_ok] at h
  obtain ⟨_, -, last, hfold, h⟩ := h
  obtain rfl := Except.ok.inj h
  have hroot (root : UInt64) : GlueCertificate.glued { last with root } = last.glued := rfl
  rw [hroot]
  refine foldlM_eq_ok (c := last) (I := fun done (c : GlueCertificate) => c.owner = owner ∧
    c.epoch = sheaf.epoch ∧ (c.glued = true → ∀ overlap ∈ done, sheaf.Agrees owner overlap))
    hfold ⟨rfl, rfl, fun _ => by simp⟩ fun done overlap _ c c' hc hturn => ?_
  obtain ⟨howner, hepoch, hglued⟩ := certifyOverlap_eq_ok hturn
  refine ⟨howner.trans hc.1, hepoch.trans hc.2.1, fun hg o ho => ?_⟩
  rcases mem_append.1 ho with ho | ho
  · exact hc.2.2 (hglued hg).1 o ho
  · rw [mem_singleton.1 ho]
    exact (hglued hg).2

theorem addOpen_epoch {key : UInt64} {dimension : UInt8} {flags : UInt32}
    (h : sheaf.addOpen key dimension flags = .ok sheaf') :
      sheaf'.epoch = nextEpoch sheaf.epoch := by
  simp only [CellularCapabilitySheaf.addOpen, except_bind_eq_ok] at h
  obtain ⟨_, -, _, -, _, -, h⟩ := h
  cases h
  rfl

theorem addOverlap_epoch {left right : UInt16} {key : UInt64} {l r : BinaryLinearMap}
    (h : sheaf.addOverlap left right key l r = .ok sheaf') :
    sheaf'.epoch = nextEpoch sheaf.epoch := by
  simp only [CellularCapabilitySheaf.addOverlap, except_bind_eq_ok] at h
  obtain ⟨_, -, _, -, _, -, _, -, _, -, _, -, _, -, _, -, h⟩ := h
  cases h
  rfl

/-! ## The invariant

The epoch wraps past zero, so it is the number of changes modulo `2 ^ 64 - 1`, and a certificate may
come to be current again.  Only one of this very change is known to be true. -/

/-- The epochs follow the changes (`epoch`, `issued`), and a glued certificate of the last change is
true of the overlaps that its owner has not installed a side of since (`agrees`). -/
structure Faithful (h : History) : Prop where
  epoch : h.sheaf.epoch.toNat = h.changes % (2 ^ 64 - 1) + 1
  issued : ∀ issue ∈ h.issues, issue.changes ≤ h.changes ∧
    issue.certificate.epoch.toNat = issue.changes % (2 ^ 64 - 1) + 1
  agrees : ∀ issue ∈ h.issues, issue.changes = h.changes → issue.certificate.glued = true →
    ∀ overlap ∈ h.sheaf.overlaps, overlap.left ∉ issue.installed → overlap.right ∉ issue.installed →
      h.sheaf.Agrees issue.certificate.owner overlap

variable {h : History}

/-- After a change of the epoch no certificate is current. -/
theorem Faithful.change (hf : Faithful h) (hepoch : sheaf.epoch = nextEpoch h.sheaf.epoch) :
    Faithful { h with sheaf, changes := h.changes + 1 } where
  epoch := by rw [hepoch, toNat_nextEpoch hf.epoch]
  issued issue hissue :=
    ⟨(hf.issued issue hissue).1.trans (Nat.le_succ _), (hf.issued issue hissue).2⟩
  agrees issue hissue hsame := absurd hsame (Nat.lt_succ_of_le (hf.issued issue hissue).1).ne

/-- A new certificate is true of all overlaps, and there is nothing installed since. -/
theorem Faithful.certify (hf : Faithful h) (hcall : h.sheaf.certify owner = .ok certificate) :
    Faithful { h with issues := ⟨certificate, h.changes, []⟩ :: h.issues } := by
  obtain ⟨rfl, hepoch, hglued⟩ := certify_eq_ok hcall
  exact ⟨hf.epoch, forall_mem_cons.2 ⟨⟨le_rfl, by rw [hepoch]; exact hf.epoch⟩, hf.issued⟩,
    forall_mem_cons.2 ⟨fun _ hg overlap ho _ _ => hglued hg overlap ho, hf.agrees⟩⟩

/-- An installation takes the overlaps of its patch out of the promise of every certificate of its
owner, and writes no other section. -/
theorem Faithful.install {value : UInt64} (hf : Faithful h)
    (hcall : h.sheaf.install owner openId value = .ok sheaf) :
    Faithful { h with sheaf, issues := h.issues.map (.afterInstall owner openId) } := by
  obtain ⟨hoverlaps, hepoch, hsection⟩ := install_eq_ok hcall
  have hkeep (issue : Issue) : (issue.afterInstall owner openId).certificate = issue.certificate ∧
      (issue.afterInstall owner openId).changes = issue.changes := by
    unfold Issue.afterInstall
    split <;> exact ⟨rfl, rfl⟩
  refine ⟨by rw [hepoch]; exact hf.epoch, forall_mem_map.2 fun issue hissue => ?_,
    forall_mem_map.2 fun issue hissue => ?_⟩
  · rw [(hkeep issue).1, (hkeep issue).2]
    exact hf.issued issue hissue
  · rw [(hkeep issue).1, (hkeep issue).2, hoverlaps]
    intro hsame hg overlap ho hleft hright
    -- The patches outside the longer list are other patches than the one installed.
    have hold (p : UInt16) (hp : p ∉ (issue.afterInstall owner openId).installed) :
        p ∉ issue.installed ∧
          sheaf.sectionOf issue.certificate.owner p =
            h.sheaf.sectionOf issue.certificate.owner p := by
      unfold Issue.afterInstall at hp
      split at hp
      · rw [mem_cons, not_or] at hp
        exact ⟨hp.2, hsection _ _ fun _ => hp.1⟩
      · rename_i hne
        exact ⟨hp, hsection _ _ fun heq => absurd heq hne⟩
    have hagrees := hf.agrees issue hissue hsame hg overlap ho (hold _ hleft).1 (hold _ hright).1
    unfold CellularCapabilitySheaf.Agrees at hagrees ⊢
    rwa [(hold _ hleft).2, (hold _ hright).2]

theorem Faithful.step (hf : Faithful h) (call : Call) : Faithful (h.step call).2 := by
  fun_cases History.step h call
  case case1 hcall => exact hf.change (addOpen_epoch hcall)
  case case3 hcall => exact hf.change (addOverlap_epoch hcall)
  case case5 hcall => exact hf.install hcall
  case case7 => exact hf.change rfl
  case case8 hcall => exact hf.certify hcall
  all_goals exact hf

/-! ## Authorisation -/

/-- After any calls, an owner whose certificate `allow` accepts has sections that agree on every
overlap exactly when they agree on those overlaps that no issue of the certificate covers any
more. -/
theorem allow_agrees_iff (secret : UInt64) (calls : List Call) (owner : UInt64) (openId : UInt16)
    (required : UInt64) (certificate : GlueCertificate)
    (hallow : (after secret calls).sheaf.allow owner openId required certificate = .ok ()) :
    let h := after secret calls
    (∀ overlap ∈ h.sheaf.overlaps, h.sheaf.Agrees owner overlap) ↔
      ∀ overlap ∈ h.sheaf.overlaps,
        (∀ issue ∈ h.issues, issue.certificate = certificate → ¬ issue.Covers h overlap) →
          h.sheaf.Agrees owner overlap := by
  intro h
  have hf : Faithful h :=
    invariant_final (fun _ call hf => hf.step call) ⟨rfl, by simp, by simp⟩
  refine ⟨fun hall overlap ho _ => hall overlap ho, fun htouched overlap ho => ?_⟩
  by_contra hnot
  refine hnot (htouched overlap ho fun issue hissue heq hcovers => hnot ?_)
  subst heq
  simp only [CellularCapabilitySheaf.allow, except_bind_eq_ok, reject_eq_ok, Bool.or_eq_false_iff,
    Bool.not_eq_false', bne_eq_false_iff_eq] at hallow
  obtain ⟨_, ⟨⟨⟨-, rfl⟩, hepoch⟩, hglued⟩, -⟩ := hallow
  obtain ⟨hle, hissued⟩ := hf.issued issue hissue
  obtain ⟨hlt, hleft, hright⟩ := hcovers
  have hsame : issue.changes = h.changes := by
    have hnow := hf.epoch
    rw [show h.sheaf.epoch = issue.certificate.epoch from hepoch.symm, hissued] at hnow
    omega
  exact hf.agrees issue hissue hsame hglued overlap ho hleft hright

def sampleMap : BinaryLinearMap := ⟨1, 1, fun row => if row = 0 then 1 else 0⟩

/-- Two patches of one bit, glued by the owner 11. -/
def gluedRun : List Call :=
  [.addOpen 1 1 0, .addOpen 2 1 0, .addOverlap 0 1 3 sampleMap sampleMap, .install 11 0 1,
    .install 11 1 1, .certify 11]

def sampleCertificate : GlueCertificate :=
  (((after 7 gluedRun).issues.head?).map (·.certificate)).getD ⟨0, 0, 0, 0, 0, 0, 0, 0, 0, 0⟩

theorem gluedRun_allows : (after 7 gluedRun).sheaf.allow 11 0 1 sampleCertificate = .ok () ∧
      ∀ overlap ∈ (after 7 gluedRun).sheaf.overlaps,
        (after 7 gluedRun).sheaf.Agrees 11 overlap := by
  have hallow : (after 7 gluedRun).sheaf.allow 11 0 1 sampleCertificate = .ok () := by
    decide +kernel
  have hissues : (after 7 gluedRun).issues = [⟨sampleCertificate, 3, []⟩] := by decide +kernel
  refine ⟨hallow, (allow_agrees_iff 7 gluedRun 11 0 1 sampleCertificate hallow).2 ?_⟩
  intro overlap _ huncovered
  refine absurd ⟨?_, List.not_mem_nil, List.not_mem_nil⟩
    (huncovered _ (hissues ▸ List.mem_singleton_self _) rfl)
  have hchanges : (after 7 gluedRun).changes = 3 := by decide +kernel
  decide

/-- The owner writes another bit on the second patch, and the certificate is still accepted. -/
theorem conflicting_install_allowed :
    let h := after 7 (gluedRun ++ [.install 11 1 0])
    h.sheaf.allow 11 0 1 sampleCertificate = .ok () ∧
      ∃ overlap ∈ h.sheaf.overlaps, ¬ h.sheaf.Agrees 11 overlap := by
  refine ⟨by decide +kernel, ⟨0, 0, 1, 1, sampleMap, sampleMap, 3⟩, List.mem_singleton.2 rfl, ?_⟩
  intro hagrees
  obtain ⟨image, hleft, hright⟩ := hagrees ⟨11, 0, 1, 4⟩ rfl ⟨11, 1, 0, 4⟩ rfl
  have hone : sampleMap.apply 1 = .ok 1 := by decide +kernel
  have hzero : sampleMap.apply 0 = .ok 0 := by decide +kernel
  cases hone.symm.trans hleft
  cases hzero.symm.trans hright

end Sisyphus.CertifiedMath
