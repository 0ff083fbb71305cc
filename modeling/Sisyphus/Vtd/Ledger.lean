import Sisyphus.Foundation.Radix
import Sisyphus.Vtd.Monitor
import Sisyphus.Vtd.Slpt

/-!
# The ledger and the tables

What holds between two calls, as long as the core is operational.  The tables in memory spell out
a tree (`Stored`), the frames the core owns are exactly the tables of that tree, and the tree and
the records agree (`Ledger`):

* a full path maps to something if and only if a live record has that path;
* the tables a record retains are the tables along its path.

The second point is where pages that are on their way out matter.  Two of them may share a table,
and one may give back a table that the other still has in its path.  `Held` therefore allows a
record that is not live to have lost the lower part of its path: from some `cut` on, the frames
it retains are no tables of the tree any more.  Under the assumption `strict` nothing is lost, and
every table is retained by some record.
-/

set_option autoImplicit false

namespace Sisyphus.Slpt

open Slpt.Core Fallible List Radix SlptInvalidator SlptPageMemory UInt64 Words

abbrev TableTree := Tree SlptFrame TableIndex UInt64

theorem tablePointer_ne_zero (f : SlptFrame) : tablePointer f ≠ 0 := by
  intro h
  have := (or_eq_zero_iff.mp h).1
  exact f.nonzero this

theorem decodeTablePointer_tablePointer (f : SlptFrame) :
    decodeTablePointer (tablePointer f) = .ok f := by
  have hperm : Field permissionMask permissionMask := by decide
  have hlow : tablePointer f &&& permissionMask = permissionMask :=
    f.field.or_and_right hperm (by decide)
  have hpage : tablePointer f &&& physicalPageMask = f.address :=
    f.field.or_and_left hperm (by decide)
  have hrest : tablePointer f &&& ~~~(physicalPageMask ||| permissionMask) = 0 :=
    (f.field.mono (by decide)).or (hperm.mono (by decide))
  rw [decodeTablePointer, hlow, hpage, hrest, SlptFrame.fromPhysicalAddress_address]
  simp [f.nonzero]

/-- The tables of a core with this many levels. -/
def layout (levels : Nat) : Layout SlptFrame TableIndex UInt64 where
  levels := levels
  link := tablePointer
  link_ne_zero := tablePointer_ne_zero
  scope := fun _ => True
  scope_append := fun _ _ _ _ => trivial

/-- The indices that `iova` takes on its way down. -/
def pathOf (levels : Nat) (iova : UInt64) : List TableIndex :=
  (List.range levels).map (Core.indexAt levels iova)

@[simp] theorem length_pathOf (levels : Nat) (iova : UInt64) :
    (pathOf levels iova).length = levels := by simp [pathOf]

variable {p : Nat}

theorem take_succ_of_getElem? {α : Type} {l : List α} {a : α} (h : l[p]? = some a) :
    l.take (p + 1) = l.take p ++ [a] := by
  rw [take_add_one, h]
  rfl

/-! ## Records -/

/-- The page is mapped: its leaf is in the tables. -/
def MappingRecord.isLive (r : MappingRecord) : Bool :=
  match r.phase with
  | .awaitingMapInvalidation => true
  | .active => true
  | _ => false

theorem isLive_iff {r : MappingRecord} :
    r.isLive = true ↔ r.phase = .awaitingMapInvalidation ∨ r.phase = .active := by
  cases h : r.phase <;> simp [MappingRecord.isLive, h]

/-- The first `cut` frames of the path are the tables along it. -/
def OnTree (T : TableTree) (path : PagePath) (cut : Nat) : Prop :=
  ∀ p, p < cut → ∃ f, path.frames[p]? = some f ∧ T.node (path.indices.take p) = some f

/-- What a record retains is in the tree, or, unless it is live or the ledger `strict`, has been
lost from some point of its path on. -/
def Held (strict : Prop) (T : TableTree) (r : MappingRecord) : Prop :=
  ∃ cut ≤ r.retainedDepth, (strict ∨ r.isLive = true → cut = r.retainedDepth) ∧
    OnTree T r.path cut ∧
    ∀ p f, cut ≤ p → p < r.retainedDepth → r.path.frames[p]? = some f → ¬T.Has f

/-- What does not depend on the tables. -/
structure RecordOk {n : Nat} (core : Core n) (r : MappingRecord) : Prop where
  depth : r.path.depth = core.levels
  indices : r.path.indices = pathOf core.levels r.iova
  frames : r.path.frames.length = core.levels
  root : r.path.frames[0]? = some core.root
  cleanup : r.cleanupDepth + 1 ≤ core.levels
  live : r.isLive = true → r.cleanupDepth = 0
  iova : core.validateIova r.iova = .ok ()
  physical : validateMappedPhysicalAddress r.physicalAddress = .ok ()
  leaf : ∃ permissions : DmaPermissions, ∃ bits, permissions.bits = .ok bits ∧
    r.leaf = r.physicalAddress ||| bits

/-- The record in a slot. -/
def Core.At {n : Nat} (core : Core n) (k : Fin n) (r : MappingRecord) : Prop :=
  (core.slots k).record = some r

structure Ledger {n : Nat} (strict : Prop) (core : Core n) (T : TableTree) : Prop where
  levels : 2 ≤ core.levels ∧ core.levels ≤ maximumLevels
  width : core.adjustedWidth = pageShift + 9 * core.levels
  record : ∀ k r, core.At k r → RecordOk core r
  held : ∀ k r, core.At k r → Held strict T r
  iova_inj : ∀ j k r s, core.At j r → core.At k s → r.iova = s.iova → j = k
  mapped : ∀ k r, core.At k r → r.isLive = true → T.leaf r.path.indices = r.leaf
  leaf : ∀ path, T.leaf path ≠ 0 → ∃ k r, core.At k r ∧ r.isLive = true ∧ r.path.indices = path
  known : strict → ∀ path f, T.node path = some f → core.frameIsKnown f = true

/-- The memory spells out the tree, and the core owns its tables and nothing else. -/
structure Stored {n : Nat} {M : Type} (v : View M) (core : Core n) (m : M) (T : TableTree) :
    Prop where
  repr : Represents (layout core.levels) core.root (v.entry m) T
  owned : ∀ f, v.owned m f ↔ T.Has f

/-! ## Paths of addresses -/

theorem indexAt_val {levels : Nat} (hl : levels ≤ maximumLevels) (iova : UInt64) (p : Nat) :
    (indexAt levels iova p).val = iova.toNat / 4096 / 512 ^ (levels - 1 - p) % 512 := by
  have h5 : levels - 1 - p ≤ 4 := by
    have : maximumLevels = 5 := rfl
    omega
  have hand : ∀ x : UInt64, (x &&& 0x1ff).toNat = x.toNat % 512 := by
    intro x
    rw [UInt64.toNat_and, show (0x1ff : UInt64).toNat = 2 ^ 9 - 1 from rfl,
      Nat.and_two_pow_sub_one_eq_mod]
  have hshift : (pageShift + (levels - 1 - p) * 9).toUInt64.toNat % 64 =
      12 + 9 * (levels - 1 - p) := by
    show (12 + (levels - 1 - p) * 9) % 2 ^ 64 % 64 = _
    omega
  show ((iova >>> (pageShift + (levels - 1 - p) * 9).toUInt64) &&& 0x1ff).toNat = _
  rw [hand, UInt64.toNat_shiftRight, hshift, Nat.shiftRight_eq_div_pow, Nat.pow_add,
    ← Nat.div_div_eq_div_mul, Nat.pow_mul]

theorem map_val_pathOf {levels : Nat} (hl : levels ≤ maximumLevels) (iova : UInt64) :
    (pathOf levels iova).map Fin.val = digits 512 levels (iova.toNat / 4096) := by
  apply ext_getElem?
  intro p
  by_cases h : p < levels
  · rw [getElem?_digits h]
    simp [pathOf, h, indexAt_val hl]
  · rw [getElem?_eq_none (by simpa using h), getElem?_eq_none (by simpa using h)]

theorem validateIova_ok {n : Nat} {core : Core n} {iova : UInt64}
    (h : core.validateIova iova = .ok ()) (hw : core.adjustedWidth < 64) :
    iova.toNat % 4096 = 0 ∧ iova.toNat < 2 ^ core.adjustedWidth := by
  simp only [validateIova, ite_error_eq_ok] at h
  obtain ⟨hlow, -, hlast, -⟩ := h
  have hzero : iova &&& (pageSize - 1) = 0 := by simpa using hlow
  have hmod : (iova &&& (pageSize - 1)).toNat = iova.toNat % 4096 := by
    rw [UInt64.toNat_and, show (pageSize - 1).toNat = 2 ^ 12 - 1 from rfl,
      Nat.and_two_pow_sub_one_eq_mod]
  rw [hzero] at hmod
  exact ⟨hmod.symm, by omega⟩

/-- Two valid addresses with the same path are the same page. -/
theorem pathOf_inj {n : Nat} {core : Core n} (hl : core.levels ≤ maximumLevels)
    (hw : core.adjustedWidth = pageShift + 9 * core.levels) {x y : UInt64}
    (hx : core.validateIova x = .ok ()) (hy : core.validateIova y = .ok ())
    (h : pathOf core.levels x = pathOf core.levels y) : x = y := by
  have hw' : core.adjustedWidth < 64 := by
    have h5 : maximumLevels = 5 := rfl
    have h12 : pageShift = 12 := rfl
    omega
  obtain ⟨hxl, hxw⟩ := validateIova_ok hx hw'
  obtain ⟨hyl, hyw⟩ := validateIova_ok hy hw'
  have hd : digits 512 core.levels (x.toNat / 4096) = digits 512 core.levels (y.toNat / 4096) := by
    rw [← map_val_pathOf hl, h, map_val_pathOf hl]
  have hm := digits_inj hd
  have hlt : ∀ z : UInt64, z.toNat < 2 ^ core.adjustedWidth →
      z.toNat / 4096 < 512 ^ core.levels := by
    intro z hz
    rw [hw, Nat.pow_add, Nat.pow_mul] at hz
    exact Nat.div_lt_of_lt_mul hz
  rw [Nat.mod_eq_of_lt (hlt x hxw), Nat.mod_eq_of_lt (hlt y hyw)] at hm
  apply UInt64.toNat_inj.mp
  omega

/-! ## Looking up the ledger -/

variable {f : SlptFrame}

namespace Core

variable {n : Nat} {core : Core n} {j k : Fin n} {r s : MappingRecord}

theorem At.inj (h : core.At k r) (h' : core.At k s) : r = s :=
  Option.some.inj (h.symm.trans h')

theorem at_setRecord : (core.setRecord k r).At j s ↔ (j = k ∧ s = r) ∨ (j ≠ k ∧ core.At j s) := by
  by_cases h : j = k
  · subst h
    simp [At, setRecord, setSlot, eq_comm]
  · simp [At, setRecord, setSlot, h]

theorem at_setRecord_self : (core.setRecord k r).At k r := at_setRecord.mpr (.inl ⟨rfl, rfl⟩)

@[simp] theorem setRecord_setRecord : (core.setRecord k r).setRecord k s = core.setRecord k s := by
  simp [setRecord, setSlot]

theorem setRecord_self (h : core.At k r) : core.setRecord k r = core := by
  have : (⟨(core.slots k).generation, some r, (core.slots k).retired⟩ : MappingSlot) =
      core.slots k := by rw [← h]
  rw [setRecord, setSlot, this, Function.update_eq_self]

theorem at_retireSlot : (core.retireSlot k).At j s ↔ j ≠ k ∧ core.At j s := by
  by_cases h : j = k
  · subst h
    simp only [At, retireSlot, setSlot, Function.update_self]
    split <;> simp
  · simp [At, retireSlot, setSlot, h]

theorem retireSlot_setRecord : (core.setRecord k r).retireSlot k = core.retireSlot k := by
  simp [retireSlot, setRecord, setSlot]

theorem recordIndex_eq_ok {h : MappingHandle} : core.recordIndex h = .ok (k, r) ↔
    h.slot.toNat = k.val ∧ core.At k r ∧ (core.slots k).generation = h.generation := by
  rw [recordIndex]
  constructor
  · intro he
    obtain ⟨hk, he⟩ := dite_eq_ok_error.mp he
    split at he
    · next s hs =>
      obtain ⟨hgen, ⟨⟩⟩ := ite_error_eq_ok.mp he
      exact ⟨rfl, hs, by simpa using hgen⟩
    · cases he
  · rintro ⟨hslot, hk, hgen⟩
    have hlt : h.slot.toNat < n := hslot ▸ k.isLt
    obtain rfl : (⟨h.slot.toNat, hlt⟩ : Fin n) = k := Fin.ext hslot
    rw [dif_pos hlt, hk]
    simp [hgen]

theorem recordIndex_setRecord {h : MappingHandle} (hr : core.recordIndex h = .ok (k, r)) :
    (core.setRecord k s).recordIndex h = .ok (k, s) := by
  obtain ⟨hslot, -, hgen⟩ := recordIndex_eq_ok.mp hr
  refine recordIndex_eq_ok.mpr ⟨hslot, at_setRecord_self, ?_⟩
  rw [← hgen]
  simp [setRecord, setSlot]

theorem frameIsKnown_iff : core.frameIsKnown f = true ↔ f = core.root ∨
    ∃ k r p, core.At k r ∧ p < r.retainedDepth ∧ r.path.frames[p]? = some f := by
  simp only [frameIsKnown, Bool.or_eq_true, beq_iff_eq, any_eq_true, mem_finRange, true_and]
  refine or_congr Iff.rfl (exists_congr fun k => ?_)
  cases h : (core.slots k).record with
  | none => simp [At, h]
  | some r =>
    simp only [contains_iff_mem, mem_iff_getElem?, At, h, Option.some.injEq,
      exists_eq_left', exists_and_left, getElem?_take]
    refine exists_congr fun p => ?_
    split <;> simp [*]

/-- The same root and the same geometry. -/
structure SameShape (core core' : Core n) : Prop where
  root : core'.root = core.root
  adjustedWidth : core'.adjustedWidth = core.adjustedWidth
  levels : core'.levels = core.levels

theorem sameShape_setRecord : core.SameShape (core.setRecord k r) := ⟨rfl, rfl, rfl⟩

theorem sameShape_retireSlot : core.SameShape (core.retireSlot k) := ⟨rfl, rfl, rfl⟩

end Core

theorem RecordOk.congr {n : Nat} {core core' : Core n} {r : MappingRecord} (h : RecordOk core r)
    (hs : core.SameShape core') : RecordOk core' r where
  depth := h.depth.trans hs.levels.symm
  indices := by rw [h.indices, hs.levels]
  frames := h.frames.trans hs.levels.symm
  root := by rw [h.root, hs.root]
  cleanup := by
    rw [hs.levels]
    exact h.cleanup
  live := h.live
  iova := by
    rw [← h.iova, validateIova, validateIova, hs.adjustedWidth]
  physical := h.physical
  leaf := h.leaf

/-! ## Consequences -/

section Consequences

variable {n : Nat} {strict : Prop} {core : Core n} {T T' : TableTree} {j k : Fin n}
  {r s : MappingRecord}

section

variable (h : RecordOk core r)
include h

theorem RecordOk.leaf_ne_zero : r.leaf ≠ 0 := by
  obtain ⟨permissions, bits, hbits, hleaf⟩ := h.leaf
  obtain ⟨hne, ⟨⟩⟩ := ite_error_eq_ok.mp hbits
  rw [hleaf]
  intro hzero
  exact absurd (or_eq_zero_iff.mp hzero).2 (by simpa using hne)

theorem RecordOk.length_indices : r.path.indices.length = core.levels := by
  rw [h.indices, length_pathOf]

theorem RecordOk.length_take (hp : p ≤ core.levels) : (r.path.indices.take p).length = p := by
  rw [List.length_take, h.length_indices]
  omega

/-- Pieces of a path of different lengths are different. -/
theorem RecordOk.take_inj {p q : Nat} (hp : p ≤ core.levels)
    (hq : q ≤ core.levels) (he : r.path.indices.take p = r.path.indices.take q) : p = q :=
  (h.length_take hp).symm.trans ((congrArg length he).trans (h.length_take hq))

theorem RecordOk.exists_index (hp : p < core.levels) :
    ∃ i, r.path.indices[p]? = some i :=
  ⟨_, getElem?_eq_getElem (by rw [h.length_indices]; exact hp)⟩

theorem RecordOk.exists_frame (hp : p < core.levels) :
    ∃ f, r.path.frames[p]? = some f :=
  ⟨_, getElem?_eq_getElem (by rw [h.frames]; exact hp)⟩

theorem RecordOk.retainedDepth_le : r.retainedDepth ≤ core.levels := by
  rw [MappingRecord.retainedDepth, h.depth]
  omega

theorem RecordOk.retainedDepth_pos : 1 ≤ r.retainedDepth := by
  rw [MappingRecord.retainedDepth, h.depth]
  have := h.cleanup
  omega

theorem RecordOk.retainedDepth_of_live (hl : r.isLive = true) : r.retainedDepth = core.levels := by
  rw [MappingRecord.retainedDepth, h.depth, h.live hl, Nat.sub_zero]

end

theorem OnTree.node_eq {path : PagePath} {d p : Nat} (h : OnTree T path d)
    (hp : p < d) (hf : path.frames[p]? = some f) : T.node (path.indices.take p) = some f := by
  obtain ⟨g, hg, hnode⟩ := h p hp
  rwa [← hg, hf] at hnode

/-- A record that is live, or any record of a strict ledger, has lost nothing. -/
theorem Held.onTree (h : Held strict T r) (hs : strict ∨ r.isLive = true) :
    OnTree T r.path r.retainedDepth := by
  obtain ⟨cut, -, heq, hon, -⟩ := h
  rw [← heq hs]
  exact hon

/-- A frame that a record retains and that is in the tree has its place there. -/
theorem Held.onTree_of_has (h : Held strict T r)
    (hp : p < r.retainedDepth) (hf : r.path.frames[p]? = some f) (hhas : T.Has f) :
    OnTree T r.path (p + 1) := by
  obtain ⟨cut, -, -, hon, hlost⟩ := h
  intro q hq
  by_cases hcut : p < cut
  · exact hon q (by omega)
  · exact absurd hhas (hlost p f (by omega) hp hf)

theorem Ledger.indices_inj (h : Ledger strict core T) (hj : core.At j r) (hk : core.At k s)
    (he : r.path.indices = s.path.indices) : j = k := by
  have hr := h.record j r hj
  have hs := h.record k s hk
  refine h.iova_inj j k r s hj hk (pathOf_inj h.levels.2 h.width hr.iova hs.iova ?_)
  rw [← hr.indices, ← hs.indices, he]

/-- A record is replaced by one for the same page. -/
theorem Ledger.replace (h : Ledger strict core T) (hk : core.At k r) (hiova : s.iova = r.iova)
    (hok : RecordOk core s) (hheld : Held strict T' s)
    (hother : ∀ j q, j ≠ k → core.At j q → Held strict T' q)
    (hmapped : ∀ j q, (core.setRecord k s).At j q → q.isLive = true →
      T'.leaf q.path.indices = q.leaf)
    (hleaf : ∀ path, T'.leaf path ≠ 0 →
      ∃ j q, (core.setRecord k s).At j q ∧ q.isLive = true ∧ q.path.indices = path)
    (hknown : strict → ∀ path f, T'.node path = some f →
      (core.setRecord k s).frameIsKnown f = true) :
    Ledger strict (core.setRecord k s) T' where
  levels := h.levels
  width := h.width
  record := by
    intro j q hj
    rcases at_setRecord.mp hj with ⟨rfl, rfl⟩ | ⟨-, hj⟩
    · exact hok.congr sameShape_setRecord
    · exact (h.record j q hj).congr sameShape_setRecord
  held := by
    intro j q hj
    rcases at_setRecord.mp hj with ⟨rfl, rfl⟩ | ⟨hne, hj⟩
    · exact hheld
    · exact hother j q hne hj
  iova_inj := by
    have hback : ∀ j q, (core.setRecord k s).At j q → ∃ q', core.At j q' ∧ q'.iova = q.iova := by
      intro j q hj
      rcases at_setRecord.mp hj with ⟨rfl, rfl⟩ | ⟨-, hj⟩
      · exact ⟨r, hk, hiova.symm⟩
      · exact ⟨q, hj, rfl⟩
    intro i j p q hi hj he
    obtain ⟨p', hp', hpi⟩ := hback i p hi
    obtain ⟨q', hq', hqi⟩ := hback j q hj
    exact h.iova_inj i j p' q' hp' hq' (by rw [hpi, hqi, he])
  mapped := hmapped
  leaf := hleaf
  known := hknown

/-- Every frame known to `core` is known to a core that retains as much. -/
theorem Core.frameIsKnown_mono {core core' : Core n}
    (hf : core.frameIsKnown f = true) (hroot : core'.root = core.root)
    (h : ∀ k r p, core.At k r → p < r.retainedDepth → r.path.frames[p]? = some f →
      core'.frameIsKnown f = true) :
    core'.frameIsKnown f = true := by
  rcases frameIsKnown_iff.mp hf with rfl | ⟨k, r, p, hk, hp, hf⟩
  · rw [← hroot]
    exact frameIsKnown_iff.mpr (.inl rfl)
  · exact h k r p hk hp hf

theorem Core.frameIsKnown_of_at (hk : core.At k r)
    (hp : p < r.retainedDepth) (hf : r.path.frames[p]? = some f) : core.frameIsKnown f = true :=
  frameIsKnown_iff.mpr (.inr ⟨k, r, p, hk, hp, hf⟩)

/-- A record is replaced by one that retains the frame if the old one does. -/
theorem Core.frameIsKnown_setRecord (hk : core.At k r)
    (h : ∀ p, p < r.retainedDepth → r.path.frames[p]? = some f →
      p < s.retainedDepth ∧ s.path.frames[p]? = some f) (hf : core.frameIsKnown f = true) :
    (core.setRecord k s).frameIsKnown f = true := by
  refine frameIsKnown_mono hf rfl fun j q p hj hp hg => ?_
  by_cases hjk : j = k
  · subst hjk
    obtain rfl := hj.inj hk
    obtain ⟨hp, hg⟩ := h p hp hg
    exact frameIsKnown_of_at (at_setRecord_self) hp hg
  · exact frameIsKnown_of_at (at_setRecord.mpr (.inr ⟨hjk, hj⟩)) hp hg

/-- The phase of a record changes, but not whether the page is mapped. -/
theorem Ledger.setPhase (h : Ledger strict core T) (hk : core.At k r) {phase : MappingPhase}
    (hlive : { r with phase }.isLive = r.isLive) :
    Ledger strict (core.setRecord k { r with phase }) T := by
  have hr := h.record k r hk
  refine h.replace hk rfl ⟨hr.depth, hr.indices, hr.frames, hr.root, hr.cleanup, ?_, hr.iova,
    hr.physical, hr.leaf⟩ ?_ (fun j q _ hj => h.held j q hj) ?_ ?_ ?_
  · intro hl
    exact hr.live (hlive ▸ hl)
  · obtain ⟨cut, hle, heq, hon, hlost⟩ := h.held k r hk
    exact ⟨cut, hle, fun hs => heq (hlive ▸ hs), hon, hlost⟩
  · intro j q hj hl
    rcases at_setRecord.mp hj with ⟨rfl, rfl⟩ | ⟨-, hj⟩
    · exact h.mapped j r hk (hlive ▸ hl)
    · exact h.mapped j q hj hl
  · intro path hpath
    obtain ⟨j, q, hj, hl, rfl⟩ := h.leaf path hpath
    by_cases hjk : j = k
    · subst hjk
      obtain rfl := hj.inj hk
      exact ⟨j, _, at_setRecord_self, hlive ▸ hl, rfl⟩
    · exact ⟨j, q, at_setRecord.mpr (.inr ⟨hjk, hj⟩), hl, rfl⟩
  · exact fun hs path f hf =>
      frameIsKnown_setRecord hk (fun p hp hg => ⟨hp, hg⟩) (h.known hs path f hf)

end Consequences

/-! ## Memory -/

section Memory

variable {n : Nat} {M : Type} {v : View M} {core : Core n} {T : TableTree} {m m' : M}

/-- What the memory stores does not depend on what cannot be seen. -/
theorem Stored.same (h : Stored v core m T) (hs : v.Same m m') : Stored v core m' T where
  repr := h.repr.congr fun f i hf => hs.entry f i ((h.owned f).mpr hf)
  owned f := (hs.owned f).trans (h.owned f)

theorem Stored.setLeaf (h : Stored v core m T) {path : List TableIndex} {table : SlptFrame}
    {i : TableIndex} {leaf : UInt64} (hnode : T.node path = some table)
    (hdepth : path.length + 1 = (layout core.levels).levels)
    (hw : v.Wrote m m' table fun j => if j = i then some leaf else none) :
    Stored v core m' (T.setLeaf (path ++ [i]) leaf) where
  repr := h.repr.setLeaf hnode
    (fun g j hg hgj => hw.entry g j ((h.owned g).mpr hg) (by simpa using hgj)) hdepth trivial
    (hw.set ((h.owned table).mpr ⟨_, hnode⟩) i leaf (by simp))
  owned g := (hw.owned g).trans (h.owned g)

theorem Stored.congr {core' : Core n} (h : Stored v core m T) (hs : core.SameShape core') :
    Stored v core' m T where
  repr := by
    rw [hs.levels, hs.root]
    exact h.repr
  owned := h.owned

end Memory

/-! ## Between two calls -/

section Between

variable {n : Nat} {M I : Type} [SlptPageMemory M] [SlptInvalidator I] {c : Contract M}

/-- As long as the core is operational, its ledger and its tables agree. -/
def Sound (c : Contract M) (strict : Prop) (w : World n M I) : Prop :=
  w.core.state = .operational →
    ∃ T, Ledger strict w.core T ∧ Stored c.toView w.core w.memory T

/-- A call took `w` to `w'`, and `d` of the page-memory calls and `e` of the invalidations it made
failed.  A single failure does not poison the core. -/
structure Step (μ : Monitor c I) (strict : Prop) (d e : Nat) (w w' : World n M I) : Prop where
  sound : Sound c strict w'
  ran : μ.Ran strict d w.memory w'.memory
  missed : μ.Missed e w.invalidator w'.invalidator
  poisoned : strict → w'.core.state = .poisoned → w.core.state = .poisoned ∨ 2 ≤ d + e

/-- A step that begins with a change of a record. -/
theorem Step.after {μ : Monitor c I} {strict : Prop} {d e : Nat} {k : Fin n} {s : MappingRecord}
    {w w₁ w' : World n M I} (h : Step μ strict d e w₁ w') (hcore : w₁.core = w.core.setRecord k s)
    (hmissed : μ.Missed 0 w.invalidator w₁.invalidator) (hr : μ.Ran strict 0 w.memory w₁.memory) :
    Step μ strict d e w w' := by
  refine ⟨h.sound, hr.zero_trans h.ran, hmissed.zero_trans h.missed,
    fun hs hp => (h.poisoned hs hp).imp_left fun hp₁ => ?_⟩
  rw [hcore] at hp₁
  exact hp₁

end Between

end Sisyphus.Slpt
