import Sisyphus.Vtd.Ownership

/-!
# What the hardware makes of the tables

`walk` is the engine's own walk through second-level tables: at each level it takes nine bits of
the address as an index, stops at an entry that allows neither reading nor writing, takes an entry
with the page-size bit for a large page, and accumulates the permissions on its way down.

`translate_run_iff` is the refinement: in every operational state of every run, the engine
translates an address if and only if the ledger has a live record for its page, and then to the
physical page and with the permissions of that record.  It needs no condition on the calls: a
table that was given back too early is empty, and no live record has lost one.
-/

set_option autoImplicit false

namespace Sisyphus.Slpt

open Fallible List Radix SlptInvalidator SlptPageMemory Words

/-! ## The walk -/

/-- A physical page and what a device may do with it. -/
structure Translation where
  page : UInt64
  read : Bool
  write : Bool
  deriving DecidableEq

/-- The bit that marks a large page, in entries one and two levels above the leaf. -/
def pageSizeBit : UInt64 := 0x80

/-- The index that the engine takes `level` levels above the leaf. -/
def levelIndex (iova : UInt64) (level : Nat) : TableIndex :=
  ⟨iova.toNat / 2 ^ (12 + 9 * level) % entriesPerTable, Nat.mod_lt _ (by decide)⟩

/-- The page inside a large page of `level` levels. -/
def largePage (entry iova : UInt64) (level : Nat) : UInt64 :=
  let size : UInt64 := 1 <<< (12 + 9 * level).toUInt64
  (entry &&& physicalPageMask &&& ~~~(size - 1)) ||| (iova &&& (size - 1) &&& ~~~(pageSize - 1))

/-- The engine's walk from a table down.  `memory` is what it reads at the index of a table. -/
def walk (memory : UInt64 → TableIndex → UInt64) (iova : UInt64) :
    Nat → UInt64 → Bool → Bool → Option Translation
  | 0, _, _, _ => none
  | level + 1, table, read, write =>
    let entry := memory table (levelIndex iova level)
    let read := read && entry &&& readBit != 0
    let write := write && entry &&& writeBit != 0
    if !read && !write then none
    else if level = 0 then some ⟨entry &&& physicalPageMask, read, write⟩
    else if (level = 1 ∨ level = 2) ∧ entry &&& pageSizeBit ≠ 0 then
      some ⟨largePage entry iova level, read, write⟩
    else walk memory iova level (entry &&& physicalPageMask) read write

/-- An address that the domain is too narrow for is not translated. -/
def translate {n : Nat} (memory : UInt64 → TableIndex → UInt64) (core : Core n) (iova : UInt64) :
    Option Translation :=
  if iova.toNat < 2 ^ core.adjustedWidth then
    walk memory iova core.levels core.root.address true true
  else none

/-- The page that an address lies in. -/
def pageOf (iova : UInt64) : UInt64 := iova >>> 12 <<< 12

/-- What a record stands for. -/
def MappingRecord.translation (r : MappingRecord) : Translation :=
  ⟨r.physicalAddress, r.leaf &&& readBit != 0, r.leaf &&& writeBit != 0⟩

/-! ## Words -/

theorem tablePointer_and_page (f : SlptFrame) : tablePointer f &&& physicalPageMask = f.address :=
  f.field.or_and_left (n := permissionMask) (by decide) (by decide)

theorem tablePointer_and_bit (f : SlptFrame) {bit : UInt64} (hp : physicalPageMask &&& bit = 0) :
    tablePointer f &&& bit = permissionMask &&& bit := by
  rw [tablePointer, or_and, f.field.and_eq_zero hp, UInt64.zero_or]

theorem validateMappedPhysicalAddress_ok {a : UInt64}
    (h : validateMappedPhysicalAddress a = .ok ()) : Field physicalPageMask a := by
  rw [validateMappedPhysicalAddress] at h
  split at h
  · cases h
  · next hne =>
    have : a &&& (pageSize - 1) = 0 ∧ a &&& ~~~physicalPageMask = 0 := by simpa using hne
    exact this.2

theorem DmaPermissions.bits_field {p : DmaPermissions} {bits : UInt64} (h : p.bits = .ok bits) :
    Field permissionMask bits := by
  obtain ⟨read, write⟩ := p
  cases read <;> cases write <;> cases h <;> decide

theorem pageOf_toNat (iova : UInt64) : (pageOf iova).toNat = iova.toNat / 4096 * 4096 := by
  have := iova.toNat_lt
  rw [pageOf, UInt64.toNat_shiftLeft, UInt64.toNat_shiftRight, Nat.shiftLeft_eq,
    Nat.shiftRight_eq_div_pow]
  show iova.toNat / 4096 * 4096 % 2 ^ 64 = _
  omega

section Ledger

variable {n : Nat} {strict : Prop} {core : Core n} {T : TableTree} {k : Fin n} {r : MappingRecord}

theorem RecordOk.leaf_and_page (h : RecordOk core r) :
    r.leaf &&& physicalPageMask = r.physicalAddress := by
  obtain ⟨p, bits, hbits, hleaf⟩ := h.leaf
  rw [hleaf, (validateMappedPhysicalAddress_ok h.physical).or_and_left
    (DmaPermissions.bits_field hbits) (by decide)]

theorem RecordOk.leaf_permissions (h : RecordOk core r) :
    (!(r.leaf &&& readBit != 0) && !(r.leaf &&& writeBit != 0)) = false := by
  obtain ⟨p, bits, hbits, hleaf⟩ := h.leaf
  have hp := validateMappedPhysicalAddress_ok h.physical
  have hread : r.leaf &&& readBit = bits &&& readBit := by
    rw [hleaf, or_and, hp.and_eq_zero (by decide), UInt64.zero_or]
  have hwrite : r.leaf &&& writeBit = bits &&& writeBit := by
    rw [hleaf, or_and, hp.and_eq_zero (by decide), UInt64.zero_or]
  rw [hread, hwrite]
  obtain ⟨read, write⟩ := p
  cases read <;> cases write <;> cases hbits <;> decide

theorem levelIndex_eq {levels p l : Nat} (hl : levels ≤ maximumLevels) (h : p + l + 1 = levels)
    (iova : UInt64) : levelIndex iova l = Core.indexAt levels iova p := by
  apply Fin.ext
  rw [indexAt_val hl, levelIndex]
  show iova.toNat / 2 ^ (12 + 9 * l) % 512 = _
  rw [Nat.pow_add, ← Nat.div_div_eq_div_mul, Nat.pow_mul, show levels - 1 - p = l by omega]

/-! ## The walk follows the tree -/

/-- What the engine makes of the leaf of a full path. -/
def leafTranslation (leaf : UInt64) : Option Translation :=
  if leaf = 0 then none
  else some ⟨leaf &&& physicalPageMask, leaf &&& readBit != 0, leaf &&& writeBit != 0⟩

variable {entry : SlptFrame → TableIndex → UInt64} {memory : UInt64 → TableIndex → UInt64}
  {iova : UInt64}

/-- The walk from a table of the tree ends at the leaf of the path, if that is mapped. -/
theorem walk_eq (hL : Ledger strict core T)
    (hrepr : Represents (layout core.levels) core.root entry T)
    (hseen : ∀ f i, T.Has f → memory f.address i = entry f i) {l p : Nat} {f : SlptFrame}
    (hp : p + l + 1 = core.levels) (hnode : T.node ((pathOf core.levels iova).take p) = some f) :
    walk memory iova (l + 1) f.address true true =
      leafTranslation (T.leaf (pathOf core.levels iova)) := by
  have htake : ((pathOf core.levels iova).take p).length = p := by
    rw [length_take, length_pathOf]
    omega
  have hi := getElem?_pathOf iova (show p < core.levels by omega)
  have hsucc := take_succ_of_getElem? hi
  have hlive : ∀ {q}, q < core.levels → T.node ((pathOf core.levels iova).take q) = none →
      T.leaf (pathOf core.levels iova) = 0 := by
    intro q hq hnone
    by_contra hne
    obtain ⟨k, r, hk, hl, he⟩ := hL.leaf _ hne
    obtain ⟨g, -, hg⟩ := (hL.held k r hk).onTree (.inr hl) q
      (by rw [(hL.record k r hk).retainedDepth_of_live hl]; exact hq)
    rw [he, hnone] at hg
    cases hg
  induction l generalizing p f with
  | zero =>
    have hfull : (pathOf core.levels iova).take p ++ [Core.indexAt core.levels iova p] =
        pathOf core.levels iova := by
      rw [← hsucc, take_of_length_le (by rw [length_pathOf]; omega)]
    rw [walk, levelIndex_eq (l := 0) hL.levels.2 hp, hseen f _ ⟨_, hnode⟩,
      hrepr.last hnode (by rw [htake]; exact hp) _ trivial, hfull, leafTranslation]
    by_cases hzero : T.leaf (pathOf core.levels iova) = 0
    · simp [hzero]
    · obtain ⟨k, r, hk, hl, he⟩ := hL.leaf _ hzero
      have := (hL.record k r hk).leaf_permissions
      rw [← he, hL.mapped k r hk hl] at hzero ⊢
      simp only [Bool.true_and, this, Bool.false_eq_true, if_false, if_true, hzero]
  | succ l ih =>
    rw [walk, levelIndex_eq hL.levels.2 hp, hseen f _ ⟨_, hnode⟩,
      hrepr.inner hnode (by rw [htake]; show p + 1 < core.levels; omega) _ trivial, ← hsucc]
    cases hchild : T.node ((pathOf core.levels iova).take (p + 1)) with
    | none =>
      simp [hlive (by omega) hchild, leafTranslation]
    | some g =>
      have hread : (tablePointer g &&& readBit != 0) = true := by
        rw [tablePointer_and_bit g (by decide)]
        decide
      have hwrite : (tablePointer g &&& writeBit != 0) = true := by
        rw [tablePointer_and_bit g (by decide)]
        decide
      have hsize : tablePointer g &&& pageSizeBit = 0 := by
        rw [tablePointer_and_bit g (by decide)]
        decide
      rw [Option.elim_some, layout]
      simp only [hread, hwrite, Bool.and_self, Bool.not_true, Bool.false_eq_true, if_false,
        Nat.succ_ne_zero, hsize, ne_eq, not_true_eq_false, and_false, tablePointer_and_page]
      refine ih (by omega) hchild ?_ (getElem?_pathOf iova (by omega)) ?_
      · rw [length_take, length_pathOf]
        omega
      · exact take_succ_of_getElem? (getElem?_pathOf iova (by omega))

/-- The records that live at a page are those whose path is the page's. -/
theorem pathOf_eq_iff (hL : Ledger strict core T) (hk : core.At k r)
    (hiova : iova.toNat < 2 ^ core.adjustedWidth) :
    pathOf core.levels r.iova = pathOf core.levels iova ↔ r.iova = pageOf iova := by
  have hw' : core.adjustedWidth < 64 := by
    have h5 : maximumLevels = 5 := rfl
    have h12 : pageShift = 12 := rfl
    have := hL.levels.2
    have := hL.width
    omega
  obtain ⟨hlow, hwidth⟩ := validateIova_ok (hL.record k r hk).iova hw'
  have hlt : ∀ z : UInt64, z.toNat < 2 ^ core.adjustedWidth →
      z.toNat / 4096 < 512 ^ core.levels := by
    intro z hz
    rw [hL.width, Nat.pow_add, Nat.pow_mul] at hz
    exact Nat.div_lt_of_lt_mul hz
  rw [← UInt64.toNat_inj, pageOf_toNat]
  constructor
  · intro h
    have hd : digits 512 core.levels (r.iova.toNat / 4096) =
        digits 512 core.levels (iova.toNat / 4096) := by
      rw [← map_val_pathOf hL.levels.2, h, map_val_pathOf hL.levels.2]
    have hm := digits_inj hd
    rw [Nat.mod_eq_of_lt (hlt _ hwidth), Nat.mod_eq_of_lt (hlt _ hiova)] at hm
    omega
  · intro h
    apply map_injective_iff.mpr Fin.val_injective
    rw [map_val_pathOf hL.levels.2, map_val_pathOf hL.levels.2, h, Nat.mul_div_cancel _ (by omega)]

/-- The engine and the ledger agree. -/
theorem Ledger.translate_iff (hL : Ledger strict core T)
    (hrepr : Represents (layout core.levels) core.root entry T)
    (hseen : ∀ f i, T.Has f → memory f.address i = entry f i) {t : Translation} :
    translate memory core iova = some t ↔
      ∃ k r, core.At k r ∧ r.isLive = true ∧ r.iova = pageOf iova ∧ r.translation = t := by
  rw [translate]
  by_cases hiova : iova.toNat < 2 ^ core.adjustedWidth
  · rw [if_pos hiova]
    have h2 := hL.levels.1
    obtain ⟨l, hl⟩ : ∃ l, core.levels = l + 1 := ⟨core.levels - 1, by omega⟩
    have hwalk : walk memory iova (l + 1) core.root.address true true =
        leafTranslation (T.leaf (pathOf core.levels iova)) :=
      walk_eq hL hrepr hseen (p := 0) (by omega) (by rw [take_zero]; exact hrepr.root)
    rw [← hl] at hwalk
    rw [hwalk, leafTranslation]
    constructor
    · intro h
      split at h
      · cases h
      next hne =>
      obtain ⟨k, r, hk, hlive, he⟩ := hL.leaf _ hne
      have hr := hL.record k r hk
      refine ⟨k, r, hk, hlive, (pathOf_eq_iff hL hk hiova).mp (hr.indices ▸ he), ?_⟩
      rw [← he, hL.mapped k r hk hlive, hr.leaf_and_page] at h
      exact Option.some.inj h
    · rintro ⟨k, r, hk, hlive, hpage, rfl⟩
      have hr := hL.record k r hk
      have hleaf := hL.mapped k r hk hlive
      rw [hr.indices, (pathOf_eq_iff hL hk hiova).mpr hpage] at hleaf
      rw [hleaf, if_neg hr.leaf_ne_zero, hr.leaf_and_page]
      rfl
  · rw [if_neg hiova]
    simp only [reduceCtorEq, false_iff]
    rintro ⟨k, r, hk, -, hpage, -⟩
    have hw' : core.adjustedWidth < 64 ∧ 12 ≤ core.adjustedWidth := by
      have h5 : maximumLevels = 5 := rfl
      have h12 : pageShift = 12 := rfl
      have := hL.levels.2
      have := hL.width
      omega
    obtain ⟨-, hwidth⟩ := validateIova_ok (hL.record k r hk).iova hw'.1
    obtain ⟨d, hd⟩ : 4096 ∣ 2 ^ core.adjustedWidth :=
      Nat.pow_dvd_pow 2 hw'.2
    rw [hpage, pageOf_toNat] at hwidth
    omega

end Ledger

/-! ## All runs -/

/-- **The engine translates what the ledger says**: in every operational state of a run, an address
is translated exactly when a record for its page is live, to the record's page and with the
record's permissions. -/
theorem translate_run_iff {n : Nat} {M I : Type} [SlptPageMemory M] [SlptInvalidator I]
    (c : Contract M) {m : M} {root : SlptFrame} {config : SlptConfig} {i : I} {w : World n M I}
    (hroot : ∀ f, c.owned m f ↔ f = root) (hw : launch n m root config i = some w)
    (calls : List Call) (hop : (run w calls).core.state = .operational)
    (memory : UInt64 → TableIndex → UInt64)
    (hseen : ∀ f j, c.owned (run w calls).memory f →
      memory f.address j = c.entry (run w calls).memory f j)
    (iova : UInt64) (t : Translation) :
    translate memory (run w calls).core iova = some t ↔ ∃ k r, (run w calls).core.At k r ∧
        (r.phase = .awaitingMapInvalidation ∨ r.phase = .active) ∧
        r.iova = pageOf iova ∧ r.translation = t := by
  obtain ⟨-, -, -, hL₀, hst₀⟩ := attach_ok (Monitor.blind c I) False (launch_eq_some hw) hroot
  obtain ⟨T, hL, hst⟩ := sound_run (fun _ => ⟨_, hL₀, hst₀⟩) calls hop
  rw [hL.translate_iff hst.repr fun f j hf => hseen f j ((hst.owned f).mpr hf)]
  simp only [isLive_iff]

/-- The pool as the engine sees it. -/
def Pool.physical (m : Pool) (address : UInt64) (i : TableIndex) : UInt64 :=
  match SlptFrame.fromPhysicalAddress address with
  | some f => m.entries f i
  | none => 0

theorem Pool.physical_eq (s : Logged Pool) (f : SlptFrame) (j : TableIndex) :
    s.memory.physical f.address j = (Logged.contract Pool.contract).entry s f j := by
  rw [Pool.physical, SlptFrame.fromPhysicalAddress_address]
  rfl

/-- A read-only page next to one that was unmapped: only the first is translated. -/
theorem translate_twoPages :
    let w := run (sampleWorld [])
      [.mapPage 0x3000 0x100000 ⟨true, false⟩, .mapPage 0x4000 0x101000 readWrite,
        .unmapPage ⟨1, 1⟩]
    translate w.memory.memory.physical w.core 0x3abc = some ⟨0x100000, true, false⟩ ∧
      (translate w.memory.memory.physical w.core 0x3abc = some ⟨0x100000, true, false⟩ ↔
        ∃ k r, w.core.At k r ∧ (r.phase = .awaitingMapInvalidation ∨ r.phase = .active) ∧
          r.iova = pageOf 0x3abc ∧ r.translation = ⟨0x100000, true, false⟩) ∧
      translate w.memory.memory.physical w.core 0x4000 = none :=
  ⟨by decide +kernel, translate_run_iff (Logged.contract Pool.contract) owned_samplePool
    (launch_sampleWorld []) _ (by decide +kernel) _
    (fun f j _ => Pool.physical_eq _ f j) _ _, by decide +kernel⟩

end Sisyphus.Slpt
