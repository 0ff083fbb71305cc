import Sisyphus.Ring.Registry

/-!
# Hardware is with one domain

The registry compares a new hardware cell with each cell that it has, range by range.  What follows
is about single ports, bytes and requesters: none of them is ever authorised to two live domains,
however domains come and go.  The same goes for address spaces, among which is the kernel's.  A
domain that is unregistered takes its hardware with it, so a port can be used again by another.
-/

set_option autoImplicit false

namespace Sisyphus.Ring

open Fallible Run Slots

/-! ## Ranges -/

theorem IoPortRange.contains_iff {range : IoPortRange} {port : UInt16} {width : UInt8}
    (h : range.contains port width = true) :
    range.first.toNat ≤ port.toNat ∧ port.toNat + width.toNat ≤ range.last.toNat + 1 := by
  simp only [contains, Bool.and_eq_true, decide_eq_true_eq] at h
  omega

theorem IoPortRange.not_overlaps {range other : IoPortRange} (h : range.overlaps other = false)
    (p : Nat) : ¬(range.first.toNat ≤ p ∧ p ≤ range.last.toNat ∧ other.first.toNat ≤ p ∧
      p ≤ other.last.toNat) := by
  simp only [overlaps, Bool.and_eq_false_iff, decide_eq_false_iff_not, UInt16.not_le,
    UInt16.lt_iff_toNat_lt] at h
  omega

theorem MmioRange.contains_iff {range : MmioRange} {address length : UInt64} {access : MmioAccess}
    (h : range.contains address length access = true) :
    range.base.toNat ≤ address.toNat ∧ address.toNat + length.toNat ≤ range.stop.toNat := by
  simp only [contains, Bool.and_eq_true, decide_eq_true_eq, UInt64.le_iff_toNat_le] at h
  obtain ⟨⟨⟨-, hfits⟩, hbase⟩, hstop⟩ := h
  rw [UInt64.toNat_add, Nat.mod_eq_of_lt hfits] at hstop
  exact ⟨hbase, hstop⟩

theorem MmioRange.not_overlaps {range other : MmioRange} (h : range.overlaps other = false)
    (byte : Nat) : ¬(range.base.toNat ≤ byte ∧ byte < range.stop.toNat ∧
      other.base.toNat ≤ byte ∧ byte < other.stop.toNat) := by
  simp only [overlaps, Bool.and_eq_false_iff, decide_eq_false_iff_not, UInt64.not_lt,
    UInt64.le_iff_toNat_le] at h
  omega

/-! ## Authorities -/

namespace DomainDescriptor

/-- No port, byte or requester is authorised to both domains, and they share no address space. -/
structure Apart (d e : DomainDescriptor) : Prop where
  io : ∀ port width port' width', d.allowsIo port width = true → e.allowsIo port' width' = true →
    ∀ p, ¬((port.toNat ≤ p ∧ p < port.toNat + width.toNat) ∧
      port'.toNat ≤ p ∧ p < port'.toNat + width'.toNat)
  mmio : ∀ address length access address' length' access',
    d.allowsMmio address length access = true → e.allowsMmio address' length' access' = true →
    ∀ byte, ¬((address.toNat ≤ byte ∧ byte < address.toNat + length.toNat) ∧
      address'.toNat ≤ byte ∧ byte < address'.toNat + length'.toNat)
  dma : ∀ iommuDomain generation iommuDomain' generation' requesterId,
    ¬(d.allowsDma iommuDomain generation requesterId = true ∧
      e.allowsDma iommuDomain' generation' requesterId = true)
  root : d.addressSpaceRoot ≠ e.addressSpaceRoot

variable {d e : DomainDescriptor}

theorem Apart.symm (h : Apart d e) : Apart e d where
  io port width port' width' hd he p hp := h.io port' width' port width he hd p ⟨hp.2, hp.1⟩
  mmio address length access address' length' access' hd he byte hbyte :=
    h.mmio address' length' access' address length access he hd byte ⟨hbyte.2, hbyte.1⟩
  dma iommuDomain generation iommuDomain' generation' requesterId hboth :=
    h.dma iommuDomain' generation' iommuDomain generation requesterId ⟨hboth.2, hboth.1⟩
  root := h.root.symm

/-- **What the comparison of the registry is for**: ranges that do not overlap have no port and no
byte in common. -/
theorem Apart.of_not_conflicts (h : d.role = .nativeHardwareCell → e.role = .nativeHardwareCell →
      d.authority.conflictsWith e.authority = false)
    (hroot : d.addressSpaceRoot ≠ e.addressSpaceRoot) : Apart d e := by
  simp only [HardwareAuthority.conflictsWith, Bool.or_eq_false_iff, List.any_eq_false,
    Bool.not_eq_true] at h
  refine ⟨fun port width port' width' hd he p hp => ?_,
    fun address length access address' length' access' hd he byte hbyte => ?_,
    fun iommuDomain generation iommuDomain' generation' requesterId hboth => ?_, hroot⟩
  · simp only [allowsIo, HardwareAuthority.permitsIo, Bool.and_eq_true, beq_iff_eq,
      List.any_eq_true] at hd he
    obtain ⟨hdrole, range, hrange, hcontains⟩ := hd
    obtain ⟨herole, range', hrange', hcontains'⟩ := he
    have := IoPortRange.not_overlaps ((h hdrole herole).1.1 range hrange range' hrange') p
    have := IoPortRange.contains_iff hcontains
    have := IoPortRange.contains_iff hcontains'
    omega
  · simp only [allowsMmio, HardwareAuthority.permitsMmio, Bool.and_eq_true, beq_iff_eq,
      List.any_eq_true] at hd he
    obtain ⟨hdrole, range, hrange, hcontains⟩ := hd
    obtain ⟨herole, range', hrange', hcontains'⟩ := he
    have := MmioRange.not_overlaps ((h hdrole herole).1.2 range hrange range' hrange') byte
    have := MmioRange.contains_iff hcontains
    have := MmioRange.contains_iff hcontains'
    omega
  · simp only [allowsDma, Bool.and_eq_true, beq_iff_eq] at hboth
    obtain ⟨⟨hdrole, hd⟩, herole, he⟩ := hboth
    have hdma := (h hdrole herole).2
    rw [HardwareAuthority.permitsDma] at hd he
    cases hg : d.authority.dma with
    | none => simp [hg] at hd
    | some grant =>
      cases hg' : e.authority.dma with
      | none => simp [hg'] at he
      | some grant' =>
        simp only [hg, Bool.and_eq_true, beq_iff_eq] at hd
        simp only [hg', Bool.and_eq_true, beq_iff_eq] at he
        simp [hg, hg', HardwareAuthority.dmaConflict, hd.2, he.2] at hdma

end DomainDescriptor

/-! ## The registry -/

namespace DomainRegistry

open DomainDescriptor

variable {registry next : DomainRegistry} {h k : Handle} {capacity : Nat} {d : DomainDescriptor}

theorem descriptor_eq_ok : registry.descriptor h = .ok d ↔
    ∃ entry, lookup registry.slots h = some entry ∧ entry.descriptor = d := by
  rw [descriptor]
  cases lookup registry.slots h <;> simp

structure Inv (registry : DomainRegistry) : Prop where
  apart : ∀ h k d e, h ≠ k → registry.descriptor h = .ok d → registry.descriptor k = .ok e →
    Apart d e
  kernel : ∀ h d, registry.descriptor h = .ok d → d.addressSpaceRoot ≠
    registry.kernelAddressSpaceRoot
  count : registry.live = (Slots.live registry.slots).ncard

/-- What a call does to the registry. -/
inductive Change (registry : DomainRegistry) : DomainRegistry → Prop
  | register {h : Handle} {d : DomainDescriptor} (hv : vacancy registry.slots = some h)
    (hroot : registry.sharesAddressSpace d.addressSpaceRoot = false)
    (hfree : registry.conflicts d = false) :
    Change registry { registry with
      slots := fill registry.slots h { executionReferences := 0, descriptor := d }
      live := registry.live + 1 }
  | revoke {h : Handle} {entry : DomainEntry} (hl : lookup registry.slots h = some entry)
    (hidle : entry.executionReferences = 0) :
    Change registry { registry with slots := vacate registry.slots h, live := registry.live - 1 }
  | recount {h : Handle} {entry : DomainEntry} (hl : lookup registry.slots h = some entry)
    (executionReferences : UInt32) :
    Change registry { registry with
      slots := fill registry.slots h { entry with executionReferences } }

theorem ensures_register (registry : DomainRegistry) (d : DomainDescriptor) :
    Ensures (register d) registry (fun _ next => ∃ h, vacancy registry.slots = some h ∧
        registry.sharesAddressSpace d.addressSpaceRoot = false ∧ registry.conflicts d = false ∧
        next = { registry with
          slots := fill registry.slots h { executionReferences := 0, descriptor := d }
          live := registry.live + 1 })
      (fun _ next => next = registry) := by
  simp only [register, ensures_rules]
  intro _ _ hroot hfree h hv
  exact ⟨h, hv, hroot, hfree, rfl⟩

theorem ensures_revoke (registry : DomainRegistry) (h : Handle) : Ensures (revoke h) registry
      (fun _ next => ∃ entry, lookup registry.slots h = some entry ∧ entry.executionReferences = 0 ∧
        next = { registry with slots := vacate registry.slots h, live := registry.live - 1 })
      (fun _ next => next = registry) := by
  simp only [revoke, ensures_rules]
  intro entry hl hidle
  exact ⟨entry, hl, by simpa using hidle, trivial⟩

theorem ensures_retainExecution (registry : DomainRegistry) (h : Handle) :
    Ensures (retainExecution h) registry
      (fun _ next => ∃ entry, lookup registry.slots h = some entry ∧ entry.executionReferences = 0 ∧
        next = { registry with
          slots := fill registry.slots h { entry with executionReferences := 1 } })
      (fun _ next => next = registry) := by
  simp only [retainExecution, ensures_rules]
  intro entry hl hidle
  have hzero : entry.executionReferences = 0 := by simpa using hidle
  exact ⟨entry, hl, hzero, by rw [hzero]; rfl⟩

theorem ensures_releaseExecution (registry : DomainRegistry) (h : Handle) :
    Ensures (releaseExecution h) registry
      (fun _ next => ∃ entry, lookup registry.slots h = some entry ∧ entry.executionReferences ≠ 0 ∧
        next = { registry with
          slots := fill registry.slots h
            { entry with executionReferences := entry.executionReferences - 1 } })
      (fun e next => next = registry ∧ (e = .staleDomain → lookup registry.slots h = none)) := by
  simp only [releaseExecution, ensures_rules]
  refine ⟨id, fun entry hl => ⟨fun _ he => ?_, fun hbusy => ?_⟩⟩
  · cases he
  · exact ⟨entry, hl, by simpa using hbusy, rfl⟩

/-- Every call that succeeds is a change, and one that fails changes nothing. -/
theorem ensures_run (registry : DomainRegistry) (call : Call) :
    Ensures call.run registry (fun _ next => Change registry next)
      (fun _ next => next = registry) := by
  cases call with
  | register d =>
    rw [Call.run, ensures_map]
    refine (ensures_register registry d).imp_ok ?_
    rintro _ _ ⟨h, hv, hroot, hfree, rfl⟩
    exact .register hv hroot hfree
  | revoke h =>
    rw [Call.run, ensures_map]
    refine (ensures_revoke registry h).imp_ok ?_
    rintro _ _ ⟨entry, hl, hidle, rfl⟩
    exact .revoke hl hidle
  | retainExecution h =>
    rw [Call.run, ensures_map]
    refine (ensures_retainExecution registry h).imp_ok ?_
    rintro _ _ ⟨entry, hl, -, rfl⟩
    exact .recount hl _
  | releaseExecution h =>
    rw [Call.run, ensures_map]
    refine (ensures_releaseExecution registry h).mono ?_ fun _ _ h => h.1
    rintro _ _ ⟨entry, hl, -, rfl⟩
    exact .recount hl _

/-- The registry sees to it that a new domain is apart from those it has. -/
theorem apart_of_register (hroot : registry.sharesAddressSpace d.addressSpaceRoot = false)
    (hfree : registry.conflicts d = false) :
    d.addressSpaceRoot ≠ registry.kernelAddressSpaceRoot ∧
      ∀ k e, registry.descriptor k = .ok e → Apart e d := by
  rw [sharesAddressSpace, Bool.or_eq_false_iff, any_values_eq_false] at hroot
  refine ⟨by simpa using hroot.1, fun k e hk => ?_⟩
  obtain ⟨entry, hl, rfl⟩ := descriptor_eq_ok.mp hk
  refine .of_not_conflicts (fun hrole hrole' => ?_) (by simpa using hroot.2 k entry hl)
  rw [conflicts, hrole', Bool.and_eq_false_iff] at hfree
  have hall := any_values_eq_false.mp (hfree.resolve_left (by decide)) k entry hl
  rw [hrole, Bool.and_eq_false_iff] at hall
  exact hall.resolve_left (by decide)

variable {entry : DomainEntry}

theorem descriptor_fill {live : Nat} (hf : Fillable registry.slots h) (k : Handle) :
    ({ registry with slots := fill registry.slots h entry, live } : DomainRegistry).descriptor k =
      if k = h then .ok entry.descriptor else registry.descriptor k := by
  rw [descriptor, lookup_fill hf, descriptor]
  by_cases hk : k = h
  · rw [if_pos hk, if_pos hk]
  · rw [if_neg hk, if_neg hk]

/-- A reference counter is no part of a descriptor. -/
theorem descriptor_recount (hl : lookup registry.slots h = some entry)
    (executionReferences : UInt32) (k : Handle) :
    ({ registry with
      slots := fill registry.slots h { entry with executionReferences } } :
        DomainRegistry).descriptor k = registry.descriptor k := by
  rw [descriptor_fill (.inr ⟨entry, hl⟩)]
  by_cases hkh : k = h
  · rw [if_pos hkh, hkh]
    exact (descriptor_eq_ok.mpr ⟨entry, hl, rfl⟩).symm
  · rw [if_neg hkh]

theorem Inv.change (hinv : Inv registry) (hchange : Change registry next) : Inv next := by
  cases hchange with
  | @register h d hv hroot hfree =>
    obtain ⟨hkernel, hapart⟩ := apart_of_register hroot hfree
    have hold : ∀ {k e}, lookup registry.slots k = some e →
        registry.descriptor k = .ok e.descriptor := fun hk => descriptor_eq_ok.mpr ⟨_, hk, rfl⟩
    refine ⟨fun k l x y hne hk hl => ?_, fun k x hk => ?_, ?_⟩
    · obtain ⟨e, he, rfl⟩ := descriptor_eq_ok.mp hk
      obtain ⟨f, hf, rfl⟩ := descriptor_eq_ok.mp hl
      exact pairwise_lookup_fill (R := fun e f => Apart e.descriptor f.descriptor) (.inl hv)
        Apart.symm (fun k e hk => hapart k _ (hold hk))
        (fun k l _ _ hne hk hl => hinv.apart k l _ _ hne (hold hk) (hold hl)) k l e f hne he hf
    · obtain ⟨e, he, rfl⟩ := descriptor_eq_ok.mp hk
      exact forall_lookup_fill (P := fun _ e => e.descriptor.addressSpaceRoot ≠ _) (.inl hv) hkernel
        (fun k e hk => hinv.kernel k _ (hold hk)) k e he
    · exact (congrArg (· + 1) hinv.count).trans (ncard_live_fill hv _).symm
  | @revoke h entry hl hidle =>
    have hkeep : ∀ k x, ({ registry with
        slots := vacate registry.slots h, live := registry.live - 1 } : DomainRegistry).descriptor
          k = .ok x → registry.descriptor k = .ok x := by
      intro k x hk
      obtain ⟨e, he, rfl⟩ := descriptor_eq_ok.mp hk
      exact descriptor_eq_ok.mpr ⟨e, ((lookup_vacate_eq_some hl).mp he).2, rfl⟩
    refine ⟨fun k l x y hne hk hl => hinv.apart k l x y hne (hkeep k x hk) (hkeep l y hl),
      fun k x hk => hinv.kernel k x (hkeep k x hk), ?_⟩
    have := ncard_live_vacate hl
    have := hinv.count
    dsimp only
    omega
  | @recount h entry hl refs =>
    have hsame := descriptor_recount hl refs
    refine ⟨fun k l x y hne hk hl => ?_, fun k x hk => ?_, ?_⟩
    · rw [hsame] at hk hl
      exact hinv.apart k l x y hne hk hl
    · rw [hsame] at hk
      exact hinv.kernel k x hk
    · rw [hinv.count]
      rw [live_fill (.inr ⟨entry, hl⟩), Set.insert_eq_of_mem (show h ∈ Slots.live registry.slots
        from ⟨entry, hl⟩)]

theorem descriptor_ne_ok (hslots : registry.slots = empty DomainEntry capacity) :
    registry.descriptor h ≠ .ok d := by
  intro hd
  obtain ⟨e, he, -⟩ := descriptor_eq_ok.mp hd
  rw [hslots, lookup_empty] at he
  cases he

theorem new_eq_ok {root : UInt64} (hnew : new capacity root = .ok registry) :
    registry =
      { kernelAddressSpaceRoot := root, slots := empty DomainEntry capacity, live := 0 } := by
  obtain ⟨-, hnew⟩ := Fallible.ite_error_eq_ok.mp hnew
  obtain ⟨-, ⟨⟩⟩ := Fallible.ite_error_eq_ok.mp hnew
  rfl

theorem Inv.new {root : UInt64} (hnew : new capacity root = .ok registry) : Inv registry := by
  obtain rfl := new_eq_ok hnew
  refine ⟨fun k l x y _ hk => absurd hk (descriptor_ne_ok rfl),
    fun k x hk => absurd hk (descriptor_ne_ok rfl), ?_⟩
  rw [live_empty, Set.ncard_empty]

theorem Inv.perform (hinv : Inv registry) (call : Call) : Inv (registry.perform call).2 := by
  rcases (ensures_run registry call).cases with ⟨a, next, heq, hchange⟩ | ⟨e, next, heq, rfl⟩
  · rw [DomainRegistry.perform, heq]
    exact hinv.change hchange
  · rw [DomainRegistry.perform, heq]
    exact hinv

/-- **Hardware is with one domain.**  However domains are registered, revoked, retained and
released: no I/O port, no byte of device memory and no DMA requester is authorised to two live
domains, they share no address space, and none has the kernel's. -/
theorem hardware_separated {capacity : Nat} {root : UInt64} {start : DomainRegistry}
    (hnew : new capacity root = .ok start) (calls : List Call) :
    (∀ h k d e, h ≠ k → (final DomainRegistry.perform start calls).descriptor h = .ok d →
      (final DomainRegistry.perform start calls).descriptor k = .ok e → Apart d e) ∧
    ∀ h d, (final DomainRegistry.perform start calls).descriptor h = .ok d →
      d.addressSpaceRoot ≠
        (final DomainRegistry.perform start calls).kernelAddressSpaceRoot := by
  have hinv : Inv (final DomainRegistry.perform start calls) :=
    invariant_final (fun _ call hinv => hinv.perform call) (.new hnew)
  exact ⟨hinv.apart, hinv.kernel⟩

/-! A cell for a serial port and one for a keyboard controller. -/

def serial : DomainDescriptor where
  role := .nativeHardwareCell
  addressSpaceRoot := 0x2000
  authority := { HardwareAuthority.none with
    ioPorts := [⟨0x3f8, 0x3ff, by decide⟩]
    ioPorts_fit := by decide }

def keyboard : DomainDescriptor where
  role := .nativeHardwareCell
  addressSpaceRoot := 0x3000
  authority := { HardwareAuthority.none with
    ioPorts := [⟨0x60, 0x64, by decide⟩]
    ioPorts_fit := by decide }

def vacantRegistry : DomainRegistry :=
  { kernelAddressSpaceRoot := 0x1000, slots := empty DomainEntry 4, live := 0 }

theorem new_vacantRegistry : new 4 0x1000 = .ok vacantRegistry := by decide +kernel

/-- The keyboard's ports are free again after the first keyboard cell was revoked. -/
def recycledPorts : List Call :=
  [.register serial, .register keyboard, .revoke ⟨1, 1⟩, .register keyboard]

theorem recycledPorts_separated :
    (final DomainRegistry.perform vacantRegistry recycledPorts).descriptor ⟨0, 1⟩ = .ok serial ∧
      (final DomainRegistry.perform vacantRegistry recycledPorts).descriptor ⟨1, 2⟩ =
        .ok keyboard ∧ Apart serial keyboard := by
  have hserial : (final DomainRegistry.perform vacantRegistry recycledPorts).descriptor ⟨0, 1⟩ =
      .ok serial := by decide +kernel
  have hkeyboard : (final DomainRegistry.perform vacantRegistry recycledPorts).descriptor
      ⟨1, 2⟩ = .ok keyboard := by decide +kernel
  exact ⟨hserial, hkeyboard, (hardware_separated new_vacantRegistry recycledPorts).1 ⟨0, 1⟩ ⟨1, 2⟩
    serial keyboard (by decide) hserial hkeyboard⟩

end DomainRegistry

end Sisyphus.Ring
