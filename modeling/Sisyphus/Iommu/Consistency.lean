import Sisyphus.Iommu.Domain
import Mathlib.Order.CompletePartialOrder

/-!
# Records, leases and spans stay in step

A domain keeps its mappings in three places: the records, the leases, and the spans that the backend
has mapped.  `FaithfulBackend` is what is assumed of a backend: a call that fails changes no span,
and one that succeeds does what it says.  Under that assumption the three agree after every call,
and a call that fails changes none of them.  In particular no call ever finds them at odds, which is
what would poison a domain.
-/

set_option autoImplicit false

namespace Sisyphus.Iommu

open Fallible Option Run Slots UInt64

/-- A backend whose statuses can be trusted.  `spans` is what it has mapped for a domain. -/
class FaithfulBackend (B : Type) [DmaRemappingBackend B] where
  spans : B → UInt64 → Set DmaMappingInfo
  isolateDevice_ok : ∀ (b b' : B) domain,
    DmaRemappingBackend.isolateDevice b = (.ok domain, b') → spans b' domain = ∅
  map_ok : ∀ (b b' : B) domain deviceAddress physicalAddress length access,
    DmaRemappingBackend.map domain deviceAddress physicalAddress length access b = (statusOk, b') →
      spans b' domain = insert ⟨deviceAddress, physicalAddress, length, access⟩ (spans b domain)
  map_failed : ∀ (b b' : B) domain deviceAddress physicalAddress length access status,
    DmaRemappingBackend.map domain deviceAddress physicalAddress length access b = (status, b') →
      status ≠ statusOk → spans b' domain = spans b domain
  unmap_ok : ∀ (b b' : B) domain deviceAddress length,
    DmaRemappingBackend.unmap domain deviceAddress length b = (statusOk, b') →
      spans b' domain =
        {span ∈ spans b domain | ¬(span.deviceAddress = deviceAddress ∧ span.length = length)}
  unmap_failed : ∀ (b b' : B) domain deviceAddress length status,
    DmaRemappingBackend.unmap domain deviceAddress length b = (status, b') →
      status ≠ statusOk → spans b' domain = spans b domain
  releaseDomain_ok : ∀ (b b' : B) domain,
    DmaRemappingBackend.releaseDomain domain b = (statusOk, b') → spans b' domain ⊆ spans b domain
  releaseDomain_failed : ∀ (b b' : B) domain status,
    DmaRemappingBackend.releaseDomain domain b = (status, b') →
      status ≠ statusOk → spans b' domain = spans b domain

/-- The physical addresses of a mapping. -/
def DmaMappingInfo.physicalBytes (info : DmaMappingInfo) : Set Nat :=
  Set.Ico info.physicalAddress.toNat (info.physicalAddress.toNat + info.length.toNat)

/-- The addresses that the device sees. -/
def DmaMappingInfo.deviceBytes (info : DmaMappingInfo) : Set Nat :=
  Set.Ico info.deviceAddress.toNat (info.deviceAddress.toNat + info.length.toNat)

namespace IommuDomain

variable {B : Type}

/-! ## Rules for the steps -/

section Rules

variable {d : IommuDomain B} {α : Type} {E : Status → IommuDomain B → Prop}

theorem ensures_poison {Q : α → IommuDomain B → Prop} :
    Ensures poison d Q E ↔ E statusIoError { d with poisoned := true } := Iff.rfl

variable {Q : Unit → IommuDomain B → Prop}

theorem ensures_poisonIf {cond : Bool} :
    Ensures (poisonIf cond) d Q E ↔
      (cond = true → E statusIoError { d with poisoned := true }) ∧ (cond = false → Q () d) := by
  cases cond with
  | true => simp [poisonIf, ensures_poison]
  | false => simp [poisonIf]

theorem ensures_onCopy {x : EStateM IovaError IovaLedger IovaLease}
    {Q : IovaLease × IovaLedger → IommuDomain B → Prop} :
    Ensures (onCopy x) d Q E ↔ Ensures x d.iovas (fun lease candidate => Q (lease, candidate) d)
      (fun e _ => E (iovaRuntimeStatus e) d) := by
  rw [Ensures, onCopy, Ensures]
  cases x d.iovas <;> rfl

theorem ensures_call {request : UInt64 → B → Status × B} :
    Ensures (call request) d Q E ↔
      (∀ b, request d.handle d.backend = (statusOk, b) → Q () { d with backend := b }) ∧
        ∀ status b, request d.handle d.backend = (status, b) → status ≠ statusOk →
          E status { d with backend := b } := by
  rw [Ensures, call]
  generalize request d.handle d.backend = result
  obtain ⟨status, b⟩ := result
  by_cases hok : status = statusOk
  · subst hok
    constructor
    · intro h
      exact ⟨fun b' hb => (Prod.mk.inj hb).2 ▸ h,
        fun _ _ hb hne => absurd (Prod.mk.inj hb).1.symm hne⟩
    · exact fun h => h.1 b rfl
  · simp only [if_neg hok]
    constructor
    · intro h
      refine ⟨fun b' hb => absurd (Prod.mk.inj hb).1 hok, fun status' b' hb _ => ?_⟩
      obtain ⟨rfl, rfl⟩ := Prod.mk.inj hb
      exact h
    · exact fun h => h.2 status b rfl hok

theorem leasedRange_of_ok {iovas : IovaLedger} {lease : IovaLease} {size : UInt64} {r : IovaRange}
    (hr : iovas.range lease = .ok r) (hlength : r.length = size) :
    (leasedRange iovas lease size : EStateM Status (IommuDomain B) IovaRange) = pure r := by
  simp [leasedRange, hr, hlength]

end Rules

/-! ## Views -/

theorem rangesOverlap_eq_false {a la b lb : UInt64} : rangesOverlap a la b lb = false ↔
    a.toNat + la.toNat < 2 ^ 64 ∧ b.toNat + lb.toNat < 2 ^ 64 ∧
      (b.toNat + lb.toNat ≤ a.toNat ∨ a.toNat + la.toNat ≤ b.toNat) := by
  rw [rangesOverlap]
  split
  · next h =>
    have ha : (a + la).toNat = a.toNat + la.toNat := Nat.mod_eq_of_lt h.1
    have hb : (b + lb).toNat = b.toNat + lb.toNat := Nat.mod_eq_of_lt h.2
    rw [Bool.and_eq_false_iff, decide_eq_false_iff_not, decide_eq_false_iff_not, UInt64.not_lt,
      UInt64.not_lt, UInt64.le_iff_toNat_le, UInt64.le_iff_toNat_le, ha, hb]
    omega
  · next h =>
    simp only [Bool.true_eq_false, false_iff]
    exact fun h' => h ⟨h'.1, h'.2.1⟩

theorem rangesOverlap_comm (a la b lb : UInt64) :
    rangesOverlap a la b lb = rangesOverlap b lb a la := by
  rw [Bool.eq_iff_iff, ← not_iff_not, Bool.not_eq_true, Bool.not_eq_true, rangesOverlap_eq_false,
    rangesOverlap_eq_false]
  omega

theorem mappingInfo_eq_some {d : IommuDomain B} {h : Handle} {info : DmaMappingInfo} :
    d.mappingInfo h = some info ↔ ∃ rec r, lookup d.mappings h = some rec ∧
      d.iovas.range rec.lease = .ok r ∧ r.length = rec.length ∧
        info = ⟨r.start, rec.physicalAddress, rec.length, rec.access⟩ := by
  rw [mappingInfo]
  cases hrec : lookup d.mappings h with
  | none => simp
  | some rec =>
    cases hr : d.iovas.range rec.lease with
    | error e => simp [hr]
    | ok r =>
      by_cases hlength : r.length = rec.length
      · simp [hr, hlength, eq_comm]
      · simp [hr, hlength]

/-! ## The invariant -/

variable [DmaRemappingBackend B] [FaithfulBackend B]

open FaithfulBackend

/-- The spans of the domain in its backend. -/
def mapped (d : IommuDomain B) : Set DmaMappingInfo := spans d.backend d.handle

structure Inv (d : IommuDomain B) : Prop where
  iovas : d.iovas.Inv
  clean : d.poisoned = false
  count : d.mappingCount = (live d.mappings).ncard
  leased : ∀ h rec, lookup d.mappings h = some rec → rec.hardwareMapped = true ∧
    ∃ r, d.iovas.range rec.lease = .ok r ∧ r.length = rec.length
  distinct : ∀ h k rec rec', lookup d.mappings h = some rec → lookup d.mappings k = some rec' →
    rec.lease = rec'.lease → h = k
  owned : ∀ lease r, d.iovas.range lease = .ok r →
    ∃ h rec, lookup d.mappings h = some rec ∧ rec.lease = lease
  physical : ∀ h k rec rec', h ≠ k → lookup d.mappings h = some rec →
    lookup d.mappings k = some rec' →
      rangesOverlap rec.physicalAddress rec.length rec'.physicalAddress rec'.length = false
  mapped : ∀ info, info ∈ d.mapped ↔ ∃ h, d.mappingInfo h = some info

/-- The call has changed nothing, except that the backend has been asked. -/
def Unchanged (d next : IommuDomain B) : Prop :=
  next = { d with backend := next.backend } ∧ next.mapped = d.mapped

theorem Unchanged.refl (d : IommuDomain B) : Unchanged d d := ⟨rfl, rfl⟩

variable {d next : IommuDomain B}

/-- Every record has its entry. -/
theorem Inv.mappingInfo (hinv : Inv d) {h : Handle} {rec : MappingRecord}
    (hrec : lookup d.mappings h = some rec) : ∃ r, d.iovas.range rec.lease = .ok r ∧
      r.length = rec.length ∧
        d.mappingInfo h = some ⟨r.start, rec.physicalAddress, rec.length, rec.access⟩ := by
  obtain ⟨-, r, hr, hlength⟩ := hinv.leased h rec hrec
  exact ⟨r, hr, hlength, mappingInfo_eq_some.mpr ⟨rec, r, hrec, hr, hlength, rfl⟩⟩

theorem Inv.unchanged (hinv : Inv d) (h : Unchanged d next) : Inv next := by
  obtain ⟨heq, hmapped⟩ := h
  generalize next.backend = b at heq
  subst heq
  refine ⟨hinv.iovas, hinv.clean, hinv.count, hinv.leased, hinv.distinct, hinv.owned, hinv.physical,
    fun info => ?_⟩
  rw [hmapped]
  exact hinv.mapped info

/-! ## A mapping is made -/

section Enter

variable {slot : Handle} {lease : IovaLease} {candidate : IovaLedger} {r : IovaRange}
  {rec : MappingRecord} {b : B}

/-- **What the backend has mapped is entered.** -/
theorem Inv.enterRecord (hinv : Inv d) (hv : vacancy d.mappings = some slot)
    (hentered : IovaLedger.Entered d.iovas r rec.lease candidate) (hlength : r.length = rec.length)
    (hmade : rec.hardwareMapped = true)
    (hfree : ∀ k old, lookup d.mappings k = some old →
      rangesOverlap old.physicalAddress old.length rec.physicalAddress rec.length = false)
    (hspans : spans b d.handle =
      insert ⟨r.start, rec.physicalAddress, rec.length, rec.access⟩ d.mapped) :
    Inv ({ d with backend := b }.enterRecord slot candidate rec) := by
  have hlook : ∀ k, lookup ({ d with backend := b }.enterRecord slot candidate rec).mappings k =
      if k = slot then some rec else lookup d.mappings k := lookup_fill (.inl hv) rec
  have hrange : ∀ other, ({ d with backend := b }.enterRecord slot candidate rec).iovas.range
      other = if other = rec.lease then .ok r else d.iovas.range other :=
    IovaLedger.range_entered hinv.iovas hentered
  have hnew : lookup ({ d with backend := b }.enterRecord slot candidate rec).mappings slot =
      some rec := (hlook slot).trans (if_pos rfl)
  have hnone := lookup_vacancy hv
  -- the leases of the other records are older than the new one
  have hother : ∀ k old, lookup d.mappings k = some old → old.lease ≠ rec.lease ∧ k ≠ slot := by
    refine fun k old hk => ⟨fun he => ?_, fun he => ?_⟩
    · obtain ⟨-, s, hs, -⟩ := hinv.leased k old hk
      rw [he, IovaLedger.range_entered_fresh hinv.iovas hentered] at hs
      cases hs
    · rw [he, hnone] at hk
      cases hk
  have hsplit : ∀ {k x},
      lookup ({ d with backend := b }.enterRecord slot candidate rec).mappings k = some x →
        k = slot ∧ x = rec ∨ lookup d.mappings k = some x :=
    fun hk => ((lookup_fill_eq_some (.inl hv)).mp hk).imp_right And.right
  refine ⟨(hinv.iovas.entered hentered).1, hinv.clean, ?_, fun k x hk => ?_,
    fun k l x y hk hl he => ?_, fun lease s hs => ?_, pairwise_lookup_fill (.inl hv)
      (rangesOverlap_comm .. |>.trans ·) hfree hinv.physical, fun info => ?_⟩
  · exact (congrArg (· + 1) hinv.count).trans (ncard_live_fill hv rec).symm
  · rcases hsplit hk with ⟨rfl, rfl⟩ | hk
    · exact ⟨hmade, r, (hrange _).trans (if_pos rfl), hlength⟩
    · obtain ⟨hmapped, s, hs, hslength⟩ := hinv.leased k x hk
      exact ⟨hmapped, s, by rw [hrange, if_neg (hother k x hk).1, hs], hslength⟩
  · by_contra hne
    exact pairwise_lookup_fill (.inl hv) Ne.symm (fun k x hk => (hother k x hk).1)
      (fun k l x y hne hk hl he => hne (hinv.distinct k l x y hk hl he)) k l x y hne hk hl he
  · rw [hrange] at hs
    by_cases hlease : lease = rec.lease
    · exact ⟨slot, rec, hnew, hlease.symm⟩
    · rw [if_neg hlease] at hs
      obtain ⟨k, x, hk, rfl⟩ := hinv.owned lease s hs
      exact ⟨k, x, by rw [hlook, if_neg (hother k x hk).2, hk], rfl⟩
  · show info ∈ spans b d.handle ↔ _
    rw [hspans, Set.mem_insert_iff, hinv.mapped]
    simp only [mappingInfo_eq_some]
    constructor
    · rintro (rfl | ⟨k, x, s, hk, hs, hslength, rfl⟩)
      · exact ⟨slot, rec, r, hnew, (hrange _).trans (if_pos rfl), hlength, rfl⟩
      · exact ⟨k, x, s, by rw [hlook, if_neg (hother k x hk).2, hk],
          by rw [hrange, if_neg (hother k x hk).1, hs], hslength, rfl⟩
    · rintro ⟨k, x, s, hk, hs, hslength, rfl⟩
      rcases hsplit hk with ⟨rfl, rfl⟩ | hk
      · rw [hrange, if_pos rfl] at hs
        cases hs
        exact .inl rfl
      · rw [hrange, if_neg (hother k x hk).1] at hs
        exact .inr ⟨k, x, s, hk, hs, hslength, rfl⟩

end Enter

/-! ## A mapping is unmade -/

section Drop

variable {mapping : Handle} {rec : MappingRecord} {r : IovaRange} {iovas : IovaLedger} {b : B}

/-- Two mappings have nothing to do with each other's device addresses. -/
theorem Inv.device (hinv : Inv d) {h k : Handle} {x y : MappingRecord} {s t : IovaRange}
    (hne : h ≠ k) (hx : lookup d.mappings h = some x) (hy : lookup d.mappings k = some y)
    (hs : d.iovas.range x.lease = .ok s) (ht : d.iovas.range y.lease = .ok t) :
    s.overlaps t = false := by
  obtain ⟨i, hi, hls⟩ := IovaLedger.range_eq_ok.mp hs
  obtain ⟨j, hj, hlt⟩ := IovaLedger.range_eq_ok.mp ht
  refine hinv.iovas.apart i j s t (fun hij => hne (hinv.distinct h k x y hx hy ?_)) hls hlt
  rw [IovaLease.eq_new_of_handle hi, IovaLease.eq_new_of_handle hj, hij]

/-- **What the backend has unmapped is dropped.** -/
theorem Inv.dropRecord (hinv : Inv d) (hrec : lookup d.mappings mapping = some rec)
    (hr : d.iovas.range rec.lease = .ok r) (hiovas : iovas.Inv)
    (hrange : ∀ other, iovas.range other =
      if other = rec.lease then .error .staleLease else d.iovas.range other)
    (hspans : spans b d.handle =
      {span ∈ d.mapped | ¬(span.deviceAddress = r.start ∧ span.length = rec.length)}) :
    Inv ({ d with backend := b }.dropRecord mapping iovas) := by
  have hlook : ∀ {k x},
      lookup ({ d with backend := b }.dropRecord mapping iovas).mappings k = some x ↔
        k ≠ mapping ∧ lookup d.mappings k = some x := lookup_vacate_eq_some hrec
  -- the other records have other leases
  have hother : ∀ {k x}, k ≠ mapping → lookup d.mappings k = some x →
      iovas.range x.lease = d.iovas.range x.lease := by
    intro k x hne hk
    rw [hrange, if_neg fun he => hne (hinv.distinct k mapping x rec hk hrec he)]
  refine ⟨hiovas, hinv.clean, ?_, fun k x hk => ?_, fun k l x y hk hl he => ?_, fun lease s hs =>
    ?_, fun k l x y hne hk hl => ?_, fun info => ?_⟩
  · have := hinv.count
    have := ncard_live_vacate hrec
    show d.mappingCount - 1 = (live (vacate d.mappings mapping)).ncard
    omega
  · obtain ⟨hne, hk⟩ := hlook.mp hk
    obtain ⟨hmapped, s, hs, hslength⟩ := hinv.leased k x hk
    exact ⟨hmapped, s, (hother hne hk).trans hs, hslength⟩
  · exact hinv.distinct k l x y (hlook.mp hk).2 (hlook.mp hl).2 he
  · have hs : iovas.range lease = .ok s := hs
    rw [hrange] at hs
    by_cases hlease : lease = rec.lease
    · rw [if_pos hlease] at hs
      cases hs
    · rw [if_neg hlease] at hs
      obtain ⟨k, x, hk, rfl⟩ := hinv.owned lease s hs
      have hne : k ≠ mapping := by
        rintro rfl
        exact hlease (congrArg MappingRecord.lease (some_inj.mp (hk.symm.trans hrec)))
      exact ⟨k, x, hlook.mpr ⟨hne, hk⟩, rfl⟩
  · exact hinv.physical k l x y hne (hlook.mp hk).2 (hlook.mp hl).2
  · show info ∈ spans b d.handle ↔ _
    rw [hspans, Set.mem_sep_iff, hinv.mapped]
    simp only [mappingInfo_eq_some]
    constructor
    · rintro ⟨⟨k, x, s, hk, hs, hslength, rfl⟩, hnot⟩
      have hne : k ≠ mapping := by
        rintro rfl
        obtain rfl := some_inj.mp (hk.symm.trans hrec)
        obtain rfl := Except.ok.inj (hs.symm.trans hr)
        exact hnot ⟨rfl, rfl⟩
      exact ⟨k, x, s, hlook.mpr ⟨hne, hk⟩, (hother hne hk).trans hs, hslength, rfl⟩
    · rintro ⟨k, x, s, hk, hs, hslength, rfl⟩
      obtain ⟨hne, hk⟩ := hlook.mp hk
      have hs : d.iovas.range x.lease = .ok s := (hother hne hk).symm.trans hs
      refine ⟨⟨k, x, s, hk, hs, hslength, rfl⟩, fun hsame => ?_⟩
      -- two ranges that start at the same address overlap
      have hapart := hinv.device hne hk hrec hs hr
      have hspos := (hinv.iovas.range_valid hs).nonempty
      have hrpos := (hinv.iovas.range_valid hr).nonempty
      have hstart : s.start.toNat = r.start.toNat := congrArg toNat hsame.1
      rw [Bool.eq_false_iff, Ne, IovaRange.overlaps_iff] at hapart
      omega

end Drop

/-! ## Calls -/

theorem length_of_stop {r : IovaRange} {size : UInt64}
    (h : r.stop.toNat = r.start.toNat + size.toNat) : r.length = size := by
  apply UInt64.toNat_inj.mp
  rw [IovaRange.length, UInt64.toNat_sub_of_le _ _ (UInt64.le_iff_toNat_le.mpr (by omega))]
  omega

theorem Unchanged.of_spans {b : B} (h : spans b d.handle = d.mapped) :
    Unchanged d { d with backend := b } := ⟨rfl, h⟩

theorem ensures_mapDmaAligned (hinv : Inv d) (physicalAddress size alignmentPages : UInt64)
    (access : DmaAccess) :
    Ensures (mapDmaAligned physicalAddress size alignmentPages access) d
      (fun _ next => Inv next) (fun _ next => Unchanged d next) := by
  simp only [mapDmaAligned, ensures_rules, ensures_onCopy, Unchanged.refl]
  intro _ _ hargs hfree slot hv
  have hsize : size % iovaPageSize = 0 := by
    simp only [Bool.or_eq_false_iff] at hargs
    simpa using hargs.1.1.2
  refine (IovaLedger.ensures_reserveAligned d.iovas _ _).mono ?_ fun _ _ _ => trivial
  rintro lease candidate ⟨r, hentered, hstop⟩
  have hlength : r.length = size := by
    refine length_of_stop ?_
    have hmod := congrArg toNat hsize
    rw [UInt64.toNat_mod] at hmod
    rw [hstop, UInt64.toNat_div]
    have hpage : iovaPageSize.toNat = 4096 := rfl
    rw [hpage] at hmod ⊢
    have : toNat 0 = 0 := rfl
    omega
  have hr : candidate.range lease = .ok r :=
    (IovaLedger.range_entered hinv.iovas hentered lease).trans (if_pos rfl)
  rw [leasedRange_of_ok hr hlength, ensures_pure, ensures_call]
  refine ⟨fun b hb => ?_, fun status b hb hne => .of_spans (map_failed _ _ _ _ _ _ _ _ hb hne)⟩
  exact hinv.enterRecord hv hentered hlength rfl (any_values_eq_false.mp hfree)
    (map_ok _ _ _ _ _ _ _ hb)

theorem newRange_ok {start length : UInt64} {range : ValidRange}
    (h : newRange start length = .ok range) :
    range.1.start = start ∧ range.1.stop.toNat = start.toNat + length.toNat := by
  rw [newRange] at h
  split at h
  · next hnew =>
    cases h
    exact (IovaRange.valid_of_new hnew).2
  · cases h

section

variable (hinv : Inv d)
include hinv

theorem ensures_mapDmaAt (deviceAddress physicalAddress size : UInt64) (access : DmaAccess) :
    Ensures (mapDmaAt deviceAddress physicalAddress size access) d
      (fun _ next => Inv next) (fun _ next => Unchanged d next) := by
  simp only [mapDmaAt, ensures_rules, ensures_onCopy, Unchanged.refl]
  intro _ _ hfree slot hv range hrange
  have hnew : newRange deviceAddress size = .ok range := by
    cases hnew : newRange deviceAddress size <;> rw [hnew] at hrange <;> cases hrange
    rfl
  obtain ⟨hstart, hstop⟩ := newRange_ok hnew
  refine (IovaLedger.ensures_reserveExact d.iovas range).mono ?_ fun _ _ _ => trivial
  intro lease candidate hentered
  have hlength : range.1.length = size := length_of_stop (by rw [hstop, hstart])
  rw [ensures_call]
  refine ⟨fun b hb => ?_, fun status b hb hne => .of_spans (map_failed _ _ _ _ _ _ _ _ hb hne)⟩
  refine hinv.enterRecord hv hentered hlength rfl (fun k old hk => ?_) ?_
  · have := any_values_eq_false.mp hfree k old hk
    rw [obstructs, Bool.or_eq_false_iff] at this
    exact this.1
  · rw [hstart]
    exact map_ok _ _ _ _ _ _ _ hb

theorem ensures_revokeDma (mapping : Handle) :
    Ensures (revokeDma mapping) d (fun _ next => Inv next) (fun _ next => Unchanged d next) := by
  simp only [revokeDma, ensures_rules, Unchanged.refl]
  intro _ _ rec hrec
  obtain ⟨hmade, r, hr, hlength⟩ := hinv.leased mapping rec hrec
  obtain ⟨iovas, hrelease, hiovas, hrange⟩ := hinv.iovas.release hr
  rw [leasedRange_of_ok hr hlength, ensures_pure, hmade, ensures_poisonIf, ensures_call]
  refine ⟨fun h => absurd h (by decide), fun _ => ⟨fun b hb => ?_,
    fun status b hb hne => .of_spans (unmap_failed _ _ _ _ _ _ hb hne)⟩⟩
  rw [hrelease]
  exact hinv.dropRecord hrec hr hiovas hrange (unmap_ok _ _ _ _ _ hb)

/-- Without records nothing is leased and nothing mapped. -/
theorem Inv.of_mappingCount_eq_zero (h : d.mappingCount = 0) :
    d.iovas.activeCount = 0 ∧ d.mapped = ∅ := by
  have hnone : ∀ k rec, lookup d.mappings k ≠ some rec := by
    intro k rec hrec
    have hmem : k ∈ live d.mappings := ⟨rec, hrec⟩
    rw [hinv.count, Set.ncard_eq_zero (finite_live _)] at h
    rw [h] at hmem
    exact hmem
  constructor
  · rw [← hinv.iovas.ncard_liveLeases]
    refine (congrArg Set.ncard (Set.eq_empty_of_forall_notMem ?_)).trans (Set.ncard_empty _)
    rintro lease ⟨r, hr⟩
    obtain ⟨k, rec, hrec, -⟩ := hinv.owned lease r hr
    exact hnone k rec hrec
  · refine Set.eq_empty_of_forall_notMem fun info hinfo => ?_
    obtain ⟨k, hk⟩ := (hinv.mapped info).mp hinfo
    obtain ⟨rec, -, hrec, -⟩ := mappingInfo_eq_some.mp hk
    exact hnone k rec hrec

theorem ensures_release :
    Ensures release d (fun _ next => Inv next) (fun _ next => Unchanged d next) := by
  simp only [release, ensures_rules, Unchanged.refl, ensures_poisonIf, ensures_call]
  intro _ hcount
  obtain ⟨hleases, hempty⟩ := hinv.of_mappingCount_eq_zero (by simpa using hcount)
  refine ⟨fun h => absurd hleases (by simpa using h), fun _ => ⟨fun b hb => ?_,
    fun status b hb hne => .of_spans (releaseDomain_failed _ _ _ _ hb hne)⟩⟩
  have hspans : spans b d.handle = d.mapped := by
    rw [hempty]
    exact Set.subset_empty_iff.mp (hempty ▸ releaseDomain_ok _ _ _ hb)
  have hinv' := hinv.unchanged (.of_spans hspans)
  exact ⟨hinv'.iovas, hinv'.clean, hinv'.count, hinv'.leased, hinv'.distinct, hinv'.owned,
    hinv'.physical, hinv'.mapped⟩

/-- **Every call keeps the three in step, and one that fails changes none of them.** -/
theorem ensures_run (call : Call) :
    Ensures call.run d (fun _ next => Inv next) (fun _ next => Unchanged d next) := by
  cases call with
  | mapDmaAligned physicalAddress size alignmentPages access =>
    rw [Call.run, ensures_map]
    exact ensures_mapDmaAligned hinv physicalAddress size alignmentPages access
  | mapDmaAt deviceAddress physicalAddress size access =>
    rw [Call.run, ensures_map]
    exact ensures_mapDmaAt hinv deviceAddress physicalAddress size access
  | revokeDma mapping =>
    rw [Call.run, ensures_map]
    exact ensures_revokeDma hinv mapping
  | release =>
    rw [Call.run, ensures_map]
    exact ensures_release hinv

theorem perform_cases (call : Call) : Inv (d.perform call).2 ∧
    ∀ status, (d.perform call).1 = .error status → Unchanged d (d.perform call).2 := by
  rcases (ensures_run hinv call).cases with ⟨a, next, heq, hrun⟩ | ⟨status, next, heq, hrun⟩
  · rw [perform, heq]
    refine ⟨hrun, fun status h => ?_⟩
    cases h
  · rw [perform, heq]
    exact ⟨hinv.unchanged hrun, fun _ _ => hrun⟩

theorem Inv.run (calls : List Call) : Inv (final perform d calls) :=
  invariant_final (fun _ call hinv => (perform_cases hinv call).1) hinv

end

theorem Inv.of_isolateDevice {backend : B} {aperture : ValidRange} {reserved : List ValidRange}
    (h : isolateDevice backend aperture reserved = .ok d) : Inv d := by
  rw [isolateDevice] at h
  split at h
  · cases h
  next iovas hiovas =>
  split at h
  · cases h
  next handle b hb =>
  obtain ⟨-, ⟨⟩⟩ := ite_error_eq_ok.mp h
  obtain ⟨hledger, -, -, hempty⟩ := IovaLedger.new_ok hiovas
  have hnone : ∀ {k rec}, lookup (empty MappingRecord maximumDomainMappings) k ≠ some rec := by
    intro k rec hrec
    rw [lookup_empty] at hrec
    cases hrec
  refine ⟨hledger, rfl, ?_, fun k rec hrec => absurd hrec hnone,
    fun k _ rec _ hrec => absurd hrec hnone, fun lease r hr => ?_,
    fun k _ rec _ _ hrec => absurd hrec hnone, fun info => ?_⟩
  · rw [live_empty, Set.ncard_empty]
  · obtain ⟨k, -, hk⟩ := IovaLedger.range_eq_ok.mp hr
    rw [hempty, lookup_empty] at hk
    cases hk
  · show info ∈ spans b handle ↔ _
    rw [isolateDevice_ok _ _ _ hb]
    refine iff_of_false (fun h => h) ?_
    rintro ⟨k, hk⟩
    obtain ⟨rec, -, hrec, -⟩ := mappingInfo_eq_some.mp hk
    exact hnone hrec

/-! ## Consistency -/

/-- A relation that assigns to each element of one set one of the other, and the other way round. -/
theorem exists_equiv {α β : Type} {s : Set α} {t : Set β} {R : α → β → Prop}
    (hto : ∀ a ∈ s, ∃ b ∈ t, R a b) (hfrom : ∀ b ∈ t, ∃ a ∈ s, R a b)
    (hfun : ∀ a b b', R a b → R a b' → b = b') (hinj : ∀ a a' b, R a b → R a' b → a = a') :
    ∃ e : s ≃ t, ∀ a : s, R a (e a) := by
  choose f hf hR using hto
  refine ⟨Equiv.ofBijective (fun a : s => (⟨f a a.2, hf a a.2⟩ : t)) ⟨fun a a' h => ?_, fun b =>
    ?_⟩, fun a => hR a a.2⟩
  · have hsame : f a a.2 = f a' a'.2 := congrArg Subtype.val h
    exact Subtype.ext (hinj a a' _ (hR a a.2) (hsame ▸ hR a' a'.2))
  · obtain ⟨a, ha, hab⟩ := hfrom b b.2
    exact ⟨⟨a, ha⟩, Subtype.ext (hfun a _ _ (hR a ha) hab)⟩

/-- Different mappings share no address. -/
theorem Inv.disjoint (hinv : Inv d) {h k : Handle} {info info' : DmaMappingInfo} (hne : h ≠ k)
    (hinfo : d.mappingInfo h = some info) (hinfo' : d.mappingInfo k = some info') :
    Disjoint info.physicalBytes info'.physicalBytes ∧
      Disjoint info.deviceBytes info'.deviceBytes := by
  obtain ⟨x, s, hx, hs, hslength, rfl⟩ := mappingInfo_eq_some.mp hinfo
  obtain ⟨y, t, hy, ht, htlength, rfl⟩ := mappingInfo_eq_some.mp hinfo'
  constructor
  · have := rangesOverlap_eq_false.mp (hinv.physical h k x y hne hx hy)
    refine Set.disjoint_left.mpr fun byte hbyte hbyte' => ?_
    have h₁ : _ ∧ _ := hbyte
    have h₂ : _ ∧ _ := hbyte'
    dsimp only at h₁ h₂
    omega
  · have := hinv.device hne hx hy hs ht
    rw [Bool.eq_false_iff, Ne, IovaRange.overlaps_iff] at this
    have hs := (hinv.iovas.range_valid hs).start_add_length
    have ht := (hinv.iovas.range_valid ht).start_add_length
    rw [hslength] at hs
    rw [htlength] at ht
    refine Set.disjoint_left.mpr fun byte hbyte hbyte' => ?_
    have h₁ : _ ∧ _ := hbyte
    have h₂ : _ ∧ _ := hbyte'
    dsimp only at h₁ h₂
    omega

/-- **Records, leases and spans are in step.**  Whatever calls are made on a new domain, and
whatever statuses its backend answers with: the records are in bijection with the live leases and
with the mapped spans, no two of them share a physical or a device address, and they are counted.  A
call that fails changes none of this. -/
theorem mappings_consistent {backend : B} {aperture : ValidRange} {reserved : List ValidRange}
    {start : IommuDomain B} (hstart : isolateDevice backend aperture reserved = .ok start)
    (calls : List Call) :
    (∃ e : live (final perform start calls).mappings ≃
        (final perform start calls).iovas.liveLeases,
      ∀ h : live (final perform start calls).mappings,
        (lookup (final perform start calls).mappings h).map MappingRecord.lease = some (e h).1) ∧
    (∃ e : live (final perform start calls).mappings ≃ (final perform start calls).mapped,
      ∀ h : live (final perform start calls).mappings,
        (final perform start calls).mappingInfo h = some (e h).1) ∧
    (∀ h k info info', h ≠ k → (final perform start calls).mappingInfo h = some info →
      (final perform start calls).mappingInfo k = some info' →
        Disjoint info.physicalBytes info'.physicalBytes ∧
          Disjoint info.deviceBytes info'.deviceBytes) ∧
    (final perform start calls).mappingCount =
      (live (final perform start calls).mappings).ncard ∧
    ∀ call status, ((final perform start calls).perform call).1 = .error status →
      Unchanged (final perform start calls) ((final perform start calls).perform call).2 := by
  have hinv := (Inv.of_isolateDevice hstart).run calls
  generalize final perform start calls = d at hinv ⊢
  refine ⟨?_, ?_, fun h k info info' hne hinfo hinfo' => ?_, hinv.count,
    fun call => (perform_cases hinv call).2⟩
  · refine exists_equiv (R := fun h lease =>
      (lookup d.mappings h).map MappingRecord.lease = some lease) ?_ ?_ ?_ ?_
    · rintro h ⟨rec, hrec⟩
      obtain ⟨-, r, hr, -⟩ := hinv.leased h rec hrec
      exact ⟨rec.lease, ⟨r, hr⟩, by rw [hrec, Option.map_some]⟩
    · rintro lease ⟨r, hr⟩
      obtain ⟨h, rec, hrec, rfl⟩ := hinv.owned lease r hr
      exact ⟨h, ⟨rec, hrec⟩, by rw [hrec, Option.map_some]⟩
    · intro h lease lease' hl hl'
      exact Option.some_inj.mp (hl.symm.trans hl')
    · intro h k lease hl hk
      obtain ⟨rec, hrec, heq⟩ := Option.map_eq_some_iff.mp hl
      obtain ⟨rec', hrec', heq'⟩ := Option.map_eq_some_iff.mp hk
      exact hinv.distinct h k rec rec' hrec hrec' (heq.trans heq'.symm)
  · refine exists_equiv (R := fun h info => d.mappingInfo h = some info) ?_ ?_ ?_ ?_
    · rintro h ⟨rec, hrec⟩
      obtain ⟨r, -, -, hinfo⟩ := hinv.mappingInfo hrec
      exact ⟨_, (hinv.mapped _).mpr ⟨h, hinfo⟩, hinfo⟩
    · intro info hmem
      obtain ⟨h, hinfo⟩ := (hinv.mapped info).mp hmem
      obtain ⟨rec, -, hrec, -⟩ := mappingInfo_eq_some.mp hinfo
      exact ⟨h, ⟨rec, hrec⟩, hinfo⟩
    · intro h info info' hinfo hinfo'
      exact Option.some_inj.mp (hinfo.symm.trans hinfo')
    · intro h k info hh hk
      by_contra hne
      have hself := (hinv.disjoint hne hh hk).2
      obtain ⟨x, s, -, hs, hslength, rfl⟩ := mappingInfo_eq_some.mp hh
      have hpos := (hinv.iovas.range_valid hs).nonempty
      have hstop := (hinv.iovas.range_valid hs).start_add_length
      rw [hslength] at hstop
      have hfirst : s.start.toNat ∈ DmaMappingInfo.deviceBytes
          ⟨s.start, x.physicalAddress, x.length, x.access⟩ := ⟨le_rfl, by dsimp only; omega⟩
      exact Set.disjoint_left.mp hself hfirst hfirst
  · exact hinv.disjoint hne hinfo hinfo'

/-! A backend that answers with the statuses it has been told. -/

structure Scripted where
  script : List Status
  mapped : List (UInt64 × DmaMappingInfo)

/-- The next status.  It is a success when nothing else has been told. -/
def Scripted.answer (b : Scripted) : Status := b.script.headD statusOk

instance : DmaRemappingBackend Scripted where
  isolateDevice b := (.ok 7, { b with mapped := b.mapped.filter fun entry => entry.1 != 7 })
  map domain deviceAddress physicalAddress length access b := (b.answer, {
    script := b.script.tail
    mapped := if b.answer = statusOk
      then (domain, ⟨deviceAddress, physicalAddress, length, access⟩) :: b.mapped else b.mapped })
  unmap domain deviceAddress length b := (b.answer, {
    script := b.script.tail
    mapped := if b.answer = statusOk
      then b.mapped.filter fun entry => !(entry.1 == domain &&
        entry.2.deviceAddress == deviceAddress && entry.2.length == length) else b.mapped })
  releaseDomain _ b := (b.answer, { b with script := b.script.tail })

instance : FaithfulBackend Scripted where
  spans b domain := {info | (domain, info) ∈ b.mapped}
  isolateDevice_ok := by
    rintro b _ _ ⟨⟩
    ext info
    simp
  map_ok := by
    intro b b' domain deviceAddress physicalAddress length access h
    obtain ⟨hok, rfl⟩ := Prod.mk.inj h
    ext info
    simp [hok]
  map_failed := by
    intro b b' domain deviceAddress physicalAddress length access status h hne
    obtain ⟨rfl, rfl⟩ := Prod.mk.inj h
    simp [hne]
  unmap_ok := by
    intro b b' domain deviceAddress length h
    obtain ⟨hok, rfl⟩ := Prod.mk.inj h
    ext info
    simp [hok, imp_iff_not_or]
  unmap_failed := by
    intro b b' domain deviceAddress length status h hne
    obtain ⟨rfl, rfl⟩ := Prod.mk.inj h
    simp [hne]
  releaseDomain_ok := by
    intro b b' domain h
    obtain ⟨-, rfl⟩ := Prod.mk.inj h
    exact subset_rfl
  releaseDomain_failed := by
    intro b b' domain status h _
    obtain ⟨-, rfl⟩ := Prod.mk.inj h
    rfl

/-- A backend that refuses its second call. -/
def moody : Scripted := ⟨[statusOk, statusBusy], []⟩

def moodyDomain : IommuDomain Scripted where
  backend := moody
  handle := 7
  active := true
  poisoned := false
  iovas := { IovaLedger.sample with
    reserved := []
    leases := empty IovaRange maximumDomainMappings }
  mappings := empty MappingRecord maximumDomainMappings
  mappingCount := 0

theorem isolateDevice_moody : isolateDevice moody IovaLedger.sampleAperture [] = .ok moodyDomain :=
  rfl

/-- One mapping is made, a second one refused. -/
theorem moody_consistent :
    ((trace perform moodyDomain [.mapDmaAligned 0x4000 0x1000 1 .read,
      .mapDmaAt 0x5000 0x8000 0x1000 .write]).map fun event => event.2.toOption) =
        [some (some ⟨0, 1⟩), none] ∧
      (final perform moodyDomain [.mapDmaAligned 0x4000 0x1000 1 .read,
        .mapDmaAt 0x5000 0x8000 0x1000 .write]).mappingCount =
        (live (final perform moodyDomain [.mapDmaAligned 0x4000 0x1000 1 .read,
          .mapDmaAt 0x5000 0x8000 0x1000 .write]).mappings).ncard := by
  obtain ⟨-, -, -, hcount, -⟩ := mappings_consistent isolateDevice_moody
    [.mapDmaAligned 0x4000 0x1000 1 .read, .mapDmaAt 0x5000 0x8000 0x1000 .write]
  exact ⟨by decide +kernel, hcount⟩

end IommuDomain

end Sisyphus.Iommu
