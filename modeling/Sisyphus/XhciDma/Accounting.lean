import Sisyphus.XhciDma.Arena
import Sisyphus.Abyss.Reservations

/-!
# Every region is given back once

`Books` is the account of an arena at any moment of its life.  The records split into a front part
that is still owed to the pool and a back part that has been given back, for regions are released
from the last to the first and a release that fails stops there.  The frames that are out are those
of the owed regions and those that were out before, the free count lacks the pages owed, and the
pool has seen the release of the back part, each region once.

Building adds a region to the owed part, whatever becomes of the checks that follow, and a release
moves one over or leaves everything as it was.
-/

set_option autoImplicit false

namespace Sisyphus.XhciDma

open Abyss BitmapFrameAllocator Bytes Fallible List Words XhciDmaRegionRecord

/-! ## The allocator -/

variable {usable : Nat → Prop} {a : BitmapFrameAllocator} {held other : List Nat}

/-- The books do not depend on the order in which the frames are listed. -/
theorem inv_of_mem_iff (h : Inv usable a held) (hnodup : other.Nodup)
    (hmem : ∀ f, f ∈ other ↔ f ∈ held) : Inv usable a other where
  allocatedLength := h.allocatedLength
  reservedLength := h.reservedLength
  bound := h.bound
  count := h.count
  nodup := hnodup
  out f hf := h.out f ((hmem f).mp hf)
  returnable f hlt hset hres := (hmem f).mpr (h.returnable f hlt hset hres)
  pinned := h.pinned
  fit f hlt hf := h.fit f hlt (hf.imp_right (hmem f).mp)

theorem inv_of_perm (h : Inv usable a held) (hperm : other.Perm held) :
    Inv usable a other :=
  inv_of_mem_iff h (hperm.nodup_iff.mpr h.nodup) fun _ => hperm.mem_iff

/-! ## The pool -/

section Pool

variable {pool : PhysicalFramePool} {firstFrame count : UInt64}

/-- **The pool hands out a run of free frames, or nothing changes.** -/
theorem pool_allocateContiguous (h : Inv usable pool.allocator held) (count : UInt64) :
    let taken := pool.allocateContiguous count 1
    taken.2.releases = pool.releases ∧
    (taken.1 = none ∧ taken.2.allocator = pool.allocator ∨
      ∃ first, first < 2 ^ 52 ∧ 0 < count.toNat ∧ taken.1 = some (address first) ∧
        Inv usable taken.2.allocator (frames first (first + count.toNat) ++ held) ∧
        taken.2.allocator.freeFrames + count.toNat = pool.allocator.freeFrames ∧
        (∀ f, taken.2.allocator.isReserved f = pool.allocator.isReserved f) ∧
        ∀ f ∈ frames first (first + count.toNat), pool.allocator.isReserved f = false) := by
  dsimp only
  rw [PhysicalFramePool.allocateContiguous]
  split
  · exact ⟨rfl, .inl ⟨rfl, rfl⟩⟩
  refine ⟨rfl, ?_⟩
  rcases allocateContiguous_cases pool.allocator count 1 with hnone |
    ⟨first, hrun, hpos, -, hsome⟩
  · rw [hnone]
    exact .inl ⟨rfl, rfl⟩
  · right
    have hle : count.toNat ≤ pool.allocator.freeFrames := h.le_freeFrames hrun
    obtain ⟨-, hlt, hfree⟩ := hrun
    have hbound := h.bound
    have hrun : ∀ f ∈ frames first (first + count.toNat),
        f < pool.allocator.frameCount ∧ pool.allocator.isAllocated f = false :=
      fun f hf => ⟨by have := (mem_frames.mp hf).2; omega, hfree f hf⟩
    have hgrant := h.grant (nodup_frames _ _) hrun ((first + count.toNat) %
      pool.allocator.frameCount)
    rw [length_frames, Nat.add_sub_cancel_left] at hgrant
    refine ⟨first, by omega, hpos, ?_⟩
    rw [hsome]
    refine ⟨rfl, hgrant, ?_, fun f => rfl, fun f hf => ?_⟩
    · exact Nat.sub_add_cancel hle
    · by_contra hres
      have hset := h.pinned f (hrun f hf).1 (Bool.not_eq_false _ ▸ hres)
      rw [(hrun f hf).2] at hset
      cases hset

/-- **The pool takes back a run of frames, or nothing changes.** -/
theorem pool_releaseContiguous (h : Inv usable pool.allocator
      (frames (frameOf firstFrame) (frameOf firstFrame + count.toNat) ++ held)) :
    let answer := pool.releaseContiguous firstFrame count
    (∀ f, answer.2.allocator.isReserved f = pool.allocator.isReserved f) ∧
    ((∃ fault, answer.1 = .error fault ∧ answer.2.allocator = pool.allocator ∧
        answer.2.releases = pool.releases) ∨
      (answer.1 = .ok () ∧ Inv usable answer.2.allocator held ∧
        answer.2.allocator.freeFrames = pool.allocator.freeFrames + count.toNat ∧
        answer.2.releases = pool.releases ++ [(firstFrame, count)])) := by
  dsimp only
  rw [PhysicalFramePool.releaseContiguous]
  split
  · exact ⟨fun _ => rfl, .inl ⟨_, rfl, rfl, rfl⟩⟩
  rcases deallocateContiguous_cases pool.allocator firstFrame count with ⟨fault, herror⟩ |
    ⟨hback, hok⟩
  · rw [herror]
    exact ⟨fun _ => rfl, .inl ⟨fault, rfl, rfl, rfl⟩⟩
  · rw [hok]
    refine ⟨fun _ => rfl, .inr ⟨rfl, ?_, rfl, rfl⟩⟩
    have hrelease := h.release (nodup_frames _ _) hback (frameOf firstFrame)
    rw [length_frames, Nat.add_sub_cancel_left] at hrelease
    obtain ⟨-, hheld, hdisjoint⟩ := nodup_append.mp h.nodup
    refine inv_of_mem_iff hrelease hheld fun f => ?_
    rw [h.nodup.mem_sdiff_iff, mem_append]
    constructor
    · exact fun hf => ⟨.inr hf, fun hrun => hdisjoint f hrun f hf rfl⟩
    · exact fun hf => hf.1.resolve_left hf.2

/-- Without a refusal, a run that can come back does. -/
theorem pool_releaseContiguous_ok (hdue : ∀ fault ∈ pool.refusals, fault = none)
    (hok : (pool.allocator.deallocateContiguous firstFrame count).1 = .ok ()) :
    (pool.releaseContiguous firstFrame count).1 = .ok () ∧
      ∀ fault ∈ (pool.releaseContiguous firstFrame count).2.refusals, fault = none := by
  rw [PhysicalFramePool.releaseContiguous]
  split
  · next fault rest hrefusals =>
    rw [hrefusals] at hdue
    cases hdue _ mem_cons_self
  · exact ⟨hok, fun fault hf => hdue fault (mem_of_mem_tail hf)⟩

end Pool

/-! ## The books -/

/-- The run of frames of a region, as the pool is told. -/
def XhciDmaRegionRecord.span (record : XhciDmaRegionRecord) : UInt64 × UInt64 :=
  (record.physicalStart, record.pageCount)

/-- The frames of a region. -/
def XhciDmaRegionRecord.run (record : XhciDmaRegionRecord) : List Nat :=
  frames (frameOf record.physicalStart) (frameOf record.physicalStart + record.pageCount.toNat)

def pages (records : List XhciDmaRegionRecord) : Nat :=
  (records.map fun record => record.pageCount.toNat).sum

/-- A region as the pool hands it out: page by page, at least one, and none of them reserved. -/
structure Owned (a : BitmapFrameAllocator) (record : XhciDmaRegionRecord) : Prop where
  aligned : record.physicalStart.toNat % 4096 = 0
  nonempty : 0 < record.pageCount.toNat
  unreserved : ∀ f ∈ record.run, a.isReserved f = false

/-- **The books of an arena**: `owed` is still to be given back, `returned` has been. -/
structure Books (usable : Nat → Prop) (held : List Nat) (free : Nat) (m : Machine)
    (owed returned : List XhciDmaRegionRecord) : Prop where
  records : m.arena.records = owed ++ returned
  unsettled : ∀ record ∈ owed, record.settled = false
  settled : ∀ record ∈ returned, record.phase = .released
  owned : ∀ record ∈ owed, Owned m.pool.allocator record
  inv : Inv usable m.pool.allocator (owed.flatMap XhciDmaRegionRecord.run ++ held)
  free : m.pool.allocator.freeFrames + pages owed = free
  released : m.arena.releasedPages = pages returned
  releases : m.pool.releases = returned.reverse.map XhciDmaRegionRecord.span

variable {free : Nat} {m : Machine} {owed returned : List XhciDmaRegionRecord}

variable {record : XhciDmaRegionRecord}

theorem pages_concat (records : List XhciDmaRegionRecord) :
    pages (records ++ [record]) = pages records + record.pageCount.toNat := by
  simp [pages]

theorem Owned.of_reserved {b : BitmapFrameAllocator} (h : Owned a record)
    (hres : ∀ f, b.isReserved f = a.isReserved f) : Owned b record :=
  ⟨h.aligned, h.nonempty, fun f hf => (hres f).trans (h.unreserved f hf)⟩

/-- Runs that are out together do not overlap, and neither do their bytes. -/
theorem Books.pairwise (h : Books usable held free m owed returned) :
    owed.Pairwise fun left right =>
      left.physicalStart.toNat + left.pageCount.toNat * 4096 ≤ right.physicalStart.toNat ∨
        right.physicalStart.toNat + right.pageCount.toNat * 4096 ≤ left.physicalStart.toNat := by
  have hnodup := (nodup_append.mp h.inv.nodup).1
  have hdisjoint := (nodup_flatMap.mp hnodup).2
  refine hdisjoint.imp_of_mem fun {left right} hleft hright hruns => ?_
  obtain ⟨hlaligned, hlpos, -⟩ := h.owned left hleft
  obtain ⟨hraligned, hrpos, -⟩ := h.owned right hright
  have hfl : frameOf left.physicalStart = left.physicalStart.toNat / 4096 := toNat_div_pageSize _
  have hfr : frameOf right.physicalStart = right.physicalStart.toNat / 4096 := toNat_div_pageSize _
  by_contra hoverlap
  -- the later of the two first frames would be in both runs
  have hmem : ∀ f, f = max (frameOf left.physicalStart) (frameOf right.physicalStart) →
      f ∈ left.run ∧ f ∈ right.run := by
    intro f hf
    exact ⟨mem_frames.mpr (by omega), mem_frames.mpr (by omega)⟩
  exact hruns (hmem _ rfl).1 (hmem _ rfl).2

/-! ## Building -/

/-- A region inside the identity window and below the limit of the device. -/
structure Placed (identity : IdentityDmaWindow) (limit : UInt64) (record : XhciDmaRegionRecord) :
    Prop where
  stop : record.physicalEnd.toNat = record.physicalStart.toNat + record.pageCount.toNat * 4096
  windowStart : identity.physicalStart ≤ record.physicalStart
  windowEnd : record.physicalEnd ≤ identity.physicalEnd
  limit : record.physicalEnd.toNat ≤ limit.toNat + 1
  device : record.deviceAddressStart = record.physicalStart ∧
    record.deviceAddressEnd = record.physicalEnd
  cpu : record.cpuStart.toNat = identity.directMapBase.toNat + record.physicalStart.toNat ∧
    record.cpuEnd.toNat = record.cpuStart.toNat + record.pageCount.toNat * 4096

variable {arena : XhciDmaArena}

theorem placeRegion_eq_ok {purpose : XhciDmaPurpose} {pageCount physical : UInt64}
    {placed : XhciDmaRegionRecord} (hpos : 0 < pageCount.toNat)
    (h : placeRegion arena (ownedRecord arena purpose pageCount physical) = .ok placed) :
    Placed arena.identity arena.effectiveDeviceLimit placed ∧ placed.physicalStart = physical ∧
      placed.pageCount = pageCount ∧ placed.purpose = purpose ∧ placed.phase = .zeroed := by
  simp only [placeRegion, ownedRecord, except_bind_eq_ok, okOr_eq_ok, reject_eq_ok,
    exists_and_left, exists_const] at h
  obtain ⟨bytes, hbytes, physicalEnd, hend, hwindow, hlimit, cpuStart, hcpuStart, cpuEnd, hcpuEnd,
    -, hplaced⟩ := h
  cases hplaced
  have hmul := checkedMul_eq_some.mp hbytes
  have hadd := checkedAdd_eq_some.mp hend
  have hstart := checkedAdd_eq_some.mp hcpuStart
  have hstop := checkedAdd_eq_some.mp hcpuEnd
  rw [show pageSize.toNat = 4096 from rfl] at hmul
  rw [Bool.or_eq_false_iff] at hwindow
  have hlow := UInt64.not_lt.mp (of_decide_eq_false hwindow.1)
  have hhigh := UInt64.not_lt.mp (of_decide_eq_false hwindow.2)
  refine ⟨⟨?_, hlow, hhigh, ?_, ⟨rfl, rfl⟩, ⟨hstart.symm, ?_⟩⟩, rfl, rfl, rfl, rfl⟩
  · exact hadd.symm.trans (by rw [hmul])
  · have hone : (physicalEnd - 1).toNat = physicalEnd.toNat - 1 :=
      UInt64.toNat_sub_of_le _ _ (UInt64.le_iff_toNat_le.mpr (by rw [UInt64.toNat_one]; omega))
    have hmax := UInt64.le_iff_toNat_le.mp (UInt64.not_lt.mp (of_decide_eq_false hlimit))
    change physicalEnd.toNat ≤ _
    omega
  · exact hstop.symm.trans (by rw [hmul])

/-- What stays the same of an arena while it is built. -/
structure SameShape (m m' : Machine) : Prop where
  identity : m'.arena.identity = m.arena.identity
  limit : m'.arena.effectiveDeviceLimit = m.arena.effectiveDeviceLimit
  scratchpads : m'.arena.scratchpadCount = m.arena.scratchpadCount

theorem SameShape.refl (m : Machine) : SameShape m m := ⟨rfl, rfl, rfl⟩

theorem SameShape.trans {m₁ m₂ m₃ : Machine} (h : SameShape m₁ m₂) (h' : SameShape m₂ m₃) :
    SameShape m₁ m₃ :=
  ⟨h'.identity.trans h.identity, h'.limit.trans h.limit, h'.scratchpads.trans h.scratchpads⟩

/-- An arena whose regions so far are all in place. -/
structure Built (usable : Nat → Prop) (held : List Nat) (free : Nat) (m : Machine)
    (plan : List (XhciDmaPurpose × UInt64)) : Prop where
  books : Books usable held free m m.arena.records []
  placed : ∀ record ∈ m.arena.records,
    Placed m.arena.identity m.arena.effectiveDeviceLimit record
  plan : m.arena.records.map (fun record => (record.purpose, record.pageCount)) = plan

theorem perm_runs (records : List XhciDmaRegionRecord) (held : List Nat) :
    ((records ++ [record]).flatMap run ++ held).Perm
      (record.run ++ (records.flatMap run ++ held)) := by
  rw [flatMap_append, flatMap_singleton, ← append_assoc record.run]
  exact perm_append_comm.append_right held

/-- One more region in the books, for frames that have just been handed out. -/
theorem Books.push {records : List XhciDmaRegionRecord} (h : Books usable held free m records [])
    {pool : PhysicalFramePool} {memory : Page} (hreleases : pool.releases = m.pool.releases)
    (hinv : Inv usable pool.allocator (record.run ++ (records.flatMap run ++ held)))
    (hfree : pool.allocator.freeFrames + record.pageCount.toNat = m.pool.allocator.freeFrames)
    (hres : ∀ f, pool.allocator.isReserved f = m.pool.allocator.isReserved f)
    (howned : Owned m.pool.allocator record) (hphase : record.settled = false)
    (hrecords : arena.records = records ++ [record])
    (hpages : arena.releasedPages = m.arena.releasedPages) :
    Books usable held free ⟨pool, memory, arena⟩ (records ++ [record]) [] where
  records := hrecords.trans (append_nil _).symm
  unsettled := forall_mem_concat.mpr ⟨h.unsettled, hphase⟩
  settled := forall_mem_nil _
  owned r hr := .of_reserved (forall_mem_concat.mpr ⟨h.owned, howned⟩ r hr) hres
  inv := inv_of_perm hinv (perm_runs records held)
  free := by
    have hold := h.free
    rw [pages_concat]
    dsimp only
    omega
  released := hpages.trans h.released
  releases := hreleases.trans h.releases

theorem Books.of_same {m' : Machine} (h : Books usable held free m owed returned)
    (hpool : m'.pool.allocator = m.pool.allocator) (hreleases : m'.pool.releases = m.pool.releases)
    (harena : m'.arena.records = m.arena.records)
    (hpages : m'.arena.releasedPages = m.arena.releasedPages) :
    Books usable held free m' owed returned where
  records := harena.trans h.records
  unsettled := h.unsettled
  settled := h.settled
  owned r hr := by rw [hpool]; exact h.owned r hr
  inv := by rw [hpool]; exact h.inv
  free := by rw [hpool]; exact h.free
  released := hpages.trans h.released
  releases := hreleases.trans h.releases

variable {plan : List (XhciDmaPurpose × UInt64)}

/-- **One region.** -/
theorem ensures_allocateRegion
    (h : Built usable held free m plan) (purpose : XhciDmaPurpose) (pageCount : UInt64) :
    Ensures (allocateRegion purpose pageCount) m
      (fun _ m' => Built usable held free m' (plan ++ [(purpose, pageCount)]) ∧ SameShape m m')
      (fun _ m' => Books usable held free m' m'.arena.records [] ∧ SameShape m m') := by
  simp only [allocateRegion, ensures_rules]
  refine ⟨fun _ => ⟨h.books, .refl m⟩, fun _ => ?_⟩
  obtain ⟨hreleases, ⟨hnone, hsame⟩ | ⟨first, hfirst, hpos, hsome, hinv, hfree, hres, hrun⟩⟩ :=
    pool_allocateContiguous h.books.inv pageCount
  · refine ⟨fun _ => ?_, fun physical hphysical => ?_⟩
    · exact ⟨h.books.of_same hsame hreleases rfl rfl, rfl, rfl, rfl⟩
    · rw [hnone] at hphysical
      cases hphysical
  · refine ⟨fun hnone => ?_, fun physical hphysical => ?_⟩
    · rw [hsome] at hnone
      cases hnone
    rw [hsome] at hphysical
    cases hphysical
    have hframe : frameOf (address first) = first := frameOf_address hfirst
    -- the books hold as soon as the record is entered, and stay right when it gets its bounds
    have hpush : ∀ {record : XhciDmaRegionRecord} {memory : Page},
        record.physicalStart = address first → record.pageCount = pageCount →
        record.settled = false →
        Books usable held free (Machine.setRecords
          { m with pool := (m.pool.allocateContiguous pageCount 1).2, memory }
          (m.arena.records ++ [record])) (m.arena.records ++ [record]) [] := by
      intro record memory hstart hcount hphase
      have hrunEq : record.run = frames first (first + pageCount.toNat) := by
        rw [run, hstart, hcount, hframe]
      refine h.books.push hreleases ?_ ?_ hres ⟨?_, ?_, ?_⟩ hphase rfl rfl
      · rw [hrunEq]
        exact hinv
      · rw [hcount]
        exact hfree
      · rw [hstart, toNat_address hfirst, Nat.mul_mod_left]
      · rw [hcount]
        exact hpos
      · rw [hrunEq]
        exact hrun
    refine ⟨fun e _ => ?_, fun placed hplaced => ?_⟩
    · exact ⟨hpush rfl rfl rfl, rfl, rfl, rfl⟩
    · obtain ⟨hp, hstart, hcount, hpurpose, hphase⟩ := placeRegion_eq_ok hpos hplaced
      refine ⟨⟨?_, ?_, ?_⟩, ⟨rfl, rfl, rfl⟩⟩
      · exact hpush hstart hcount (by rw [settled, hphase]; rfl)
      · exact forall_mem_concat.mpr ⟨h.placed, hp⟩
      · change (m.arena.records ++ [placed]).map _ = _
        rw [map_append, h.plan, map_singleton, hpurpose, hcount]

/-- The links are written to memory; the arena and the pool stay as they are. -/
theorem ensures_volatileWriteU64 (record : XhciDmaRegionRecord) (offset value : UInt64) :
    Ensures (volatileWriteU64 record offset value) m
      (fun _ m' => m'.pool = m.pool ∧ m'.arena = m.arena)
      (fun _ m' => m'.pool = m.pool ∧ m'.arena = m.arena) := by
  simp only [volatileWriteU64, ensures_rules]

theorem ensures_linkScratchpads :
    Ensures linkScratchpads m (fun _ m' => m'.pool = m.pool ∧ m'.arena = m.arena)
      (fun _ m' => m'.pool = m.pool ∧ m'.arena = m.arena) := by
  simp only [linkScratchpads, ensures_rules]
  intro array _ buffers _
  refine (ensures_forM (I := fun m' => m'.pool = m.pool ∧ m'.arena = m.arena) ⟨rfl, rfl⟩ ?_).imp_ok
    ?_
  · rintro index - t ⟨hpool, harena⟩
    simp only [ensures_rules]
    refine ⟨fun _ => ⟨hpool, harena⟩, fun value _ => ?_⟩
    rw [← hpool, ← harena]
    exact ensures_volatileWriteU64 ..
  · rintro _ t ⟨hpool, harena⟩
    refine ⟨fun _ => ⟨hpool, harena⟩, fun dcbaa _ => ?_⟩
    rw [← hpool, ← harena]
    exact ensures_volatileWriteU64 ..

/-- The regions of an arena with so many scratchpad buffers, with their page counts. -/
def regionPlan (scratchpadCount : UInt16) : List (XhciDmaPurpose × UInt64) :=
  [(.dcbaa, 1), (.commandRing, 1), (.eventRing, 1), (.eventRingSegmentTable, 1)] ++
    if scratchpadCount = 0 then []
    else [(.scratchpadPointerArray, (scratchpadCount.toUInt64 * 8 + (pageSize - 1)) / pageSize),
      (.scratchpadBuffers, scratchpadCount.toUInt64)]

theorem ensures_allocateScratchpads (h : Built usable held free m plan) (count : UInt16) :
    Ensures (allocateScratchpads count) m
      (fun _ m' => Built usable held free m' (plan ++
        [(.scratchpadPointerArray, (count.toUInt64 * 8 + (pageSize - 1)) / pageSize),
          (.scratchpadBuffers, count.toUInt64)]) ∧ SameShape m m')
      (fun _ m' => Books usable held free m' m'.arena.records [] ∧ SameShape m m') := by
  simp only [allocateScratchpads, ensures_rules]
  refine ⟨fun _ => ⟨h.books, .refl m⟩, fun pointerBytes hbytes => ?_⟩
  have hmul : pointerBytes = count.toUInt64 * 8 := by
    rw [checkedMul] at hbytes
    split at hbytes
    · exact (Option.some.inj hbytes).symm
    · cases hbytes
  subst hmul
  refine (ensures_allocateRegion h _ _).imp_ok ?_
  rintro _ m₁ ⟨h₁, hsame₁⟩
  refine (ensures_allocateRegion h₁ _ _).mono ?_ fun _ _ h => ⟨h.1, hsame₁.trans h.2⟩
  rintro _ m₂ ⟨h₂, hsame₂⟩
  refine ensures_linkScratchpads.mono ?_ ?_
  · rintro _ m₃ ⟨hpool, harena⟩
    refine ⟨⟨?_, ?_, ?_⟩, (hsame₁.trans hsame₂).trans ?_⟩
    · rw [harena]
      exact h₂.books.of_same (by rw [hpool]) (by rw [hpool]) (by rw [harena]) (by rw [harena])
    · rw [harena]
      exact h₂.placed
    · rw [harena, h₂.plan, append_assoc]
      rfl
    · exact ⟨by rw [harena], by rw [harena], by rw [harena]⟩
  · rintro _ m₃ ⟨hpool, harena⟩
    refine ⟨?_, (hsame₁.trans hsame₂).trans ⟨by rw [harena], by rw [harena], by rw [harena]⟩⟩
    rw [harena]
    exact h₂.books.of_same (by rw [hpool]) (by rw [hpool]) (by rw [harena]) (by rw [harena])

/-- All the regions become ready. -/
def Machine.makeReady (m : Machine) : Machine :=
  m.setRecords (m.arena.records.map fun record => { record with phase := .ready })

theorem Built.makeReady (h : Built usable held free m plan) :
    Built usable held free m.makeReady plan ∧ ∀ record ∈ m.makeReady.arena.records,
      record.phase = .ready := by
  have hrecords : m.makeReady.arena.records =
      m.arena.records.map fun record => { record with phase := .ready } := rfl
  refine ⟨⟨⟨?_, ?_, ?_, ?_, ?_, ?_, ?_, ?_⟩, ?_, ?_⟩, ?_⟩
  · exact (append_nil _).symm
  · intro record hrecord
    obtain ⟨_, -, rfl⟩ := mem_map.mp hrecord
    rfl
  · exact forall_mem_nil _
  · intro record hrecord
    obtain ⟨old, hold, rfl⟩ := mem_map.mp hrecord
    obtain ⟨haligned, hpos, hres⟩ := h.books.owned old hold
    exact ⟨haligned, hpos, hres⟩
  · rw [hrecords, flatMap_map]
    exact h.books.inv
  · have hpages : pages m.makeReady.arena.records = pages m.arena.records := by
      rw [hrecords, pages, map_map]
      rfl
    rw [hpages]
    exact h.books.free
  · exact h.books.released
  · exact h.books.releases
  · intro record hrecord
    obtain ⟨old, hold, rfl⟩ := mem_map.mp hrecord
    obtain ⟨hstop, hlow, hhigh, hlimit, hdevice, hcpu⟩ := h.placed old hold
    exact ⟨hstop, hlow, hhigh, hlimit, hdevice, hcpu⟩
  · rw [hrecords, map_map]
    exact h.plan
  · intro record hrecord
    obtain ⟨_, -, rfl⟩ := mem_map.mp hrecord
    rfl

/-- **The regions of an arena.** -/
theorem ensures_allocateAllRegions (h : Built usable held free m []) : Ensures allocateAllRegions m
      (fun _ m' => Built usable held free m' (regionPlan m.arena.scratchpadCount) ∧ SameShape m m' ∧
        ∀ record ∈ m'.arena.records, record.phase = .ready)
      (fun _ m' => Books usable held free m' m'.arena.records [] ∧ SameShape m m') := by
  simp only [allocateAllRegions, ensures_bind]
  refine (ensures_allocateRegion h _ _).imp_ok ?_
  rintro _ m₁ ⟨h₁, hsame₁⟩
  refine (ensures_allocateRegion h₁ _ _).mono ?_ fun _ _ h => ⟨h.1, hsame₁.trans h.2⟩
  rintro _ m₂ ⟨h₂, hsame₂⟩
  have hsame₂ := hsame₁.trans hsame₂
  refine (ensures_allocateRegion h₂ _ _).mono ?_ fun _ _ h => ⟨h.1, hsame₂.trans h.2⟩
  rintro _ m₃ ⟨h₃, hsame₃⟩
  have hsame₃ := hsame₂.trans hsame₃
  refine (ensures_allocateRegion h₃ _ _).mono ?_ fun _ _ h => ⟨h.1, hsame₃.trans h.2⟩
  rintro _ m₄ ⟨h₄, hsame₄⟩
  have hsame := hsame₃.trans hsame₄
  simp only [ensures_get]
  rw [hsame.scratchpads]
  by_cases hzero : m.arena.scratchpadCount = 0
  · simp only [hzero, ne_eq, not_true_eq_false, if_false, ensures_modify]
    obtain ⟨hready, hphase⟩ := h₄.makeReady
    exact ⟨hready, ⟨hsame.identity, hsame.limit, hsame.scratchpads⟩, hphase⟩
  · simp only [ne_eq, hzero, not_false_eq_true, if_true, ensures_rules]
    refine (ensures_allocateScratchpads h₄ _).mono ?_ fun _ _ h => ⟨h.1, hsame.trans h.2⟩
    rintro _ m₅ ⟨h₅, hsame₅⟩
    obtain ⟨hready, hphase⟩ := h₅.makeReady
    have hall := hsame.trans hsame₅
    refine ⟨?_, ⟨hall.identity, hall.limit, hall.scratchpads⟩, hphase⟩
    rw [regionPlan, if_neg hzero]
    exact hready

end Sisyphus.XhciDma
