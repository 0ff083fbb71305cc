import Sisyphus.Abyss.Frame

/-!
# Who holds which frame

The callers of the frame allocator see addresses go out and come back.  `outstanding` reads off a
history which frames are out, as a list, so that a frame handed out twice would be in it twice.
`Inv` relates the two bitmaps and the counter to that list, and every operation keeps it
(`Inv.perform`).

Two kinds of allocated frames can be told apart: those that are reserved too, and those that are
not, which are exactly the ones that somebody holds and may give back.
-/

set_option autoImplicit false

namespace Sisyphus.Abyss

open Bitmap List Option Run Words

/-! ## Requests -/

inductive Request where
  | reserveRange (start stop : UInt64)
  | allocate
  | allocateContiguous (frameCount alignmentFrames : UInt64)
  | deallocate (frame : UInt64)
  | deallocateContiguous (firstFrame frameCount : UInt64)

inductive Reply where
  | done
  | frame (address : Option UInt64)
  | released (result : Except FrameAllocatorError Unit)

/-- The frame at an address. -/
def frameOf (address : UInt64) : Nat := (address / pageSize).toNat

namespace BitmapFrameAllocator

def perform (a : BitmapFrameAllocator) : Request → Reply × BitmapFrameAllocator
  | .reserveRange start stop => (.done, a.reserveRange start stop)
  | .allocate => (.frame a.allocate.1, a.allocate.2)
  | .allocateContiguous frameCount alignmentFrames =>
    (.frame (a.allocateContiguous frameCount alignmentFrames).1,
      (a.allocateContiguous frameCount alignmentFrames).2)
  | .deallocate frame => (.released (a.deallocate frame).1, (a.deallocate frame).2)
  | .deallocateContiguous firstFrame frameCount =>
    (.released (a.deallocateContiguous firstFrame frameCount).1,
      (a.deallocateContiguous firstFrame frameCount).2)

end BitmapFrameAllocator

open BitmapFrameAllocator

/-- The frames that a reply hands out. -/
def granted : Request × Reply → List Nat
  | (.allocate, .frame (some address)) => [frameOf address]
  | (.allocateContiguous frameCount _, .frame (some address)) =>
    frames (frameOf address) (frameOf address + frameCount.toNat)
  | _ => []

/-- The frames that a reply takes back. -/
def returned : Request × Reply → List Nat
  | (.deallocate frame, .released (.ok ())) => [frameOf frame]
  | (.deallocateContiguous firstFrame frameCount, .released (.ok ())) =>
    frames (frameOf firstFrame) (frameOf firstFrame + frameCount.toNat)
  | _ => []

/-- What is out after one more request. -/
def handOver (held : List Nat) (event : Request × Reply) : List Nat :=
  granted event ++ held.diff (returned event)

/-- The frames that have been handed out and not been returned. -/
def outstanding (events : List (Request × Reply)) : List Nat := events.foldl handOver []

/-! ## The invariant -/

/-- The books agree.  `usable` is what is known of the frames that may go out. -/
structure Inv (usable : Nat → Prop) (a : BitmapFrameAllocator) (held : List Nat) : Prop where
  allocatedLength : a.allocated.length = wordsFor a.frameCount
  reservedLength : a.reserved.length = wordsFor a.frameCount
  bound : a.frameCount < 2 ^ 52
  count : a.freeFrames = (clear a.allocated a.frameCount).card
  nodup : held.Nodup
  out : ∀ f ∈ held, f < a.frameCount ∧ a.isAllocated f = true
  returnable : ∀ f < a.frameCount, a.isAllocated f = true → a.isReserved f = false → f ∈ held
  pinned : ∀ f < a.frameCount, a.isReserved f = true → a.isAllocated f = true
  fit : ∀ f < a.frameCount, a.isAllocated f = false ∨ f ∈ held → usable f

variable {usable : Nat → Prop} {a : BitmapFrameAllocator} {held : List Nat} {f : Nat}

section Bits

variable {l : List Nat}

theorem Inv.allocated_lt (h : Inv usable a held) (hf : f < a.frameCount) :
    f / wordBits < a.allocated.length := h.allocatedLength ▸ div_lt_wordsFor hf

theorem Inv.reserved_lt (h : Inv usable a held) (hf : f < a.frameCount) :
    f / wordBits < a.reserved.length := h.reservedLength ▸ div_lt_wordsFor hf

theorem foldl_setAllocated (a : BitmapFrameAllocator) (l : List Nat) (value : Bool) :
    l.foldl (fun b frame => b.setAllocated frame value) a =
      { a with allocated := setBits a.allocated l value } := by
  induction l generalizing a with
  | nil => rfl
  | cons f rest ih => exact ih _

theorem mem_frames {first last : Nat} : f ∈ frames first last ↔ first ≤ f ∧ f < last := by
  rw [frames, mem_range'_1]
  omega

theorem nodup_frames (first last : Nat) : (frames first last).Nodup := nodup_range' ..

theorem length_frames (first last : Nat) : (frames first last).length = last - first := by
  rw [frames, length_range']

/-- What the books say of one frame. -/
structure FrameOk (usable : Prop) (allocated reserved : Bool) (held : Prop) : Prop where
  out : held → allocated = true
  returnable : allocated = true → reserved = false → held
  pinned : reserved = true → allocated = true
  fit : allocated = false ∨ held → usable

theorem Inv.frameOk (h : Inv usable a held) (hf : f < a.frameCount) :
    FrameOk (usable f) (a.isAllocated f) (a.isReserved f) (f ∈ held) :=
  ⟨fun hheld => (h.out f hheld).2, h.returnable f hf, h.pinned f hf, h.fit f hf⟩

/-- Books that say of each frame what they may. -/
theorem Inv.of_frames {b : BitmapFrameAllocator} (h : Inv usable a held)
    (hsame : b.frameCount = a.frameCount) (hallocated : b.allocated.length = a.allocated.length)
    (hreserved : b.reserved.length = a.reserved.length)
    (hcount : b.freeFrames = (clear b.allocated b.frameCount).card) (hnodup : l.Nodup)
    (hl : ∀ f ∈ l, f < a.frameCount) (hok : ∀ f < a.frameCount,
      FrameOk (usable f) (b.isAllocated f) (b.isReserved f) (f ∈ l)) : Inv usable b l where
  allocatedLength := by rw [hallocated, hsame, h.allocatedLength]
  reservedLength := by rw [hreserved, hsame, h.reservedLength]
  bound := hsame ▸ h.bound
  count := hcount
  nodup := hnodup
  out f hf := ⟨hsame ▸ hl f hf, (hok f (hl f hf)).out hf⟩
  returnable f hf := (hok f (hsame ▸ hf)).returnable
  pinned f hf := (hok f (hsame ▸ hf)).pinned
  fit f hf := (hok f (hsame ▸ hf)).fit

/-- **Free frames go out.** -/
theorem Inv.grant (h : Inv usable a held) (hnodup : l.Nodup)
    (hfree : ∀ f ∈ l, f < a.frameCount ∧ a.isAllocated f = false) (nextSearch : Nat) :
    Inv usable { a with
      allocated := setBits a.allocated l true
      freeFrames := a.freeFrames - l.length
      nextSearch } (l ++ held) := by
  have hlt : ∀ f ∈ l, f / wordBits < a.allocated.length := fun f hf => h.allocated_lt (hfree f hf).1
  have hbit : ∀ f, bitIsSet (setBits a.allocated l true) f =
      if f ∈ l then true else a.isAllocated f :=
    bitIsSet_setBits hlt true
  refine h.of_frames rfl (length_setBits ..) rfl ?_ ?_ ?_ fun f hf => ?_
  · have := card_clear_setBits_true hlt hnodup fun f hf => mem_clear.mpr (hfree f hf)
    have hcount := h.count
    dsimp only
    omega
  · refine nodup_append.mpr ⟨hnodup, h.nodup, ?_⟩
    rintro f hf _ hheld rfl
    cases (h.out f hheld).2.symm.trans (hfree f hf).2
  · intro f hf
    exact (mem_append.mp hf).elim (fun hf => (hfree f hf).1) fun hf => (h.out f hf).1
  · rw [isAllocated, hbit, mem_append]
    by_cases hl : f ∈ l
    · rw [if_pos hl]
      exact ⟨fun _ => rfl, fun _ _ => .inl hl, fun _ => rfl, fun _ => h.fit f hf
        (.inl (hfree f hl).2)⟩
    · rw [if_neg hl, or_iff_right hl]
      exact h.frameOk hf

/-- **Frames come back.** -/
theorem Inv.release (h : Inv usable a held) (hnodup : l.Nodup)
    (hback : ∀ f ∈ l, f < a.frameCount ∧ a.isAllocated f = true ∧ a.isReserved f = false)
    (nextSearch : Nat) :
    Inv usable { a with
      allocated := setBits a.allocated l false
      freeFrames := a.freeFrames + l.length
      nextSearch } (held.diff l) := by
  have hlt : ∀ f ∈ l, f / wordBits < a.allocated.length := fun f hf => h.allocated_lt (hback f hf).1
  have hbit : ∀ f, bitIsSet (setBits a.allocated l false) f =
      if f ∈ l then false else a.isAllocated f := bitIsSet_setBits hlt false
  have hdiff : ∀ f, f ∈ held.diff l ↔ f ∈ held ∧ f ∉ l := fun f => h.nodup.mem_sdiff_iff
  refine h.of_frames rfl (length_setBits ..) rfl ?_ h.nodup.diff
    (fun f hf => (h.out f ((hdiff f).mp hf).1).1) fun f hf => ?_
  · have := card_clear_setBits_false hlt hnodup (fun f hf => (hback f hf).1)
      fun f hf => (hback f hf).2.1
    have hcount := h.count
    dsimp only
    omega
  · rw [isAllocated, hbit, hdiff]
    by_cases hl : f ∈ l
    · obtain ⟨-, hset, hres⟩ := hback f hl
      rw [if_pos hl]
      exact ⟨fun hc => absurd hl hc.2, fun hc => absurd hc (by decide),
        fun hc => absurd (hc.symm.trans hres) (by decide),
        fun _ => h.fit f hf (.inr (h.returnable f hf hset hres))⟩
    · rw [if_neg hl, and_iff_left hl]
      exact h.frameOk hf

end Bits

/-! ## Reserving -/

/-- Both bits of one frame are set to `b`. -/
theorem Inv.setFrame {b : Bool} {n : Nat} (h : Inv usable a held) (hf : f < a.frameCount)
    (hn : n = (clear (setBit a.allocated f b) a.frameCount).card)
    (hok : FrameOk (usable f) b b (f ∈ held)) :
    Inv usable { a with
      allocated := setBit a.allocated f b
      reserved := setBit a.reserved f b
      freeFrames := n } held := by
  refine h.of_frames rfl (length_setBit ..) (length_setBit ..) hn h.nodup
    (fun j hj => (h.out j hj).1) fun j hj => ?_
  rw [isAllocated, isReserved, bitIsSet_setBit (h.allocated_lt hf),
    bitIsSet_setBit (h.reserved_lt hf)]
  by_cases hjf : j = f
  · rw [if_pos hjf, if_pos hjf, hjf]
    exact hok
  · rw [if_neg hjf, if_neg hjf]
    exact h.frameOk hj

theorem mem_clear_allocated (hf : f < a.frameCount) :
    f ∈ clear a.allocated a.frameCount ↔ ¬a.isAllocated f = true := by
  rw [mem_clear, and_iff_right hf, Bool.not_eq_true, isAllocated]

theorem Inv.reserveFrame (h : Inv usable a held) (hf : f < a.frameCount) :
    Inv usable (a.reserveFrame f) held := by
  refine h.setFrame hf ?_ ⟨fun _ => rfl, fun _ hc => absurd hc (by decide), fun _ => rfl,
    fun hc => h.fit f hf (.inr (hc.resolve_left (by decide)))⟩
  rw [clear_setBit_true (h.allocated_lt hf), Finset.card_erase_eq_ite, ← h.count]
  simp only [mem_clear_allocated hf, ite_not]
  rfl

/-- What a loop of `reserve_range` leaves. -/
theorem Inv.foldl_reserveFrame {l : List Nat} (h : Inv usable a held)
    (hl : ∀ f ∈ l, f < a.frameCount) :
    Inv usable (l.foldl BitmapFrameAllocator.reserveFrame a) held ∧
      (l.foldl BitmapFrameAllocator.reserveFrame a).frameCount = a.frameCount ∧
      ∀ j, (l.foldl BitmapFrameAllocator.reserveFrame a).isReserved j =
        (decide (j ∈ l) || a.isReserved j) := by
  induction l generalizing a with
  | nil => exact ⟨h, rfl, by simp⟩
  | cons f rest ih =>
    have hf := hl f (mem_cons_self ..)
    have hres : ∀ j, (a.reserveFrame f).isReserved j = if j = f then true else a.isReserved j :=
      bitIsSet_setBit (h.reserved_lt hf) true
    obtain ⟨hinv, hcount, hbits⟩ := ih (h.reserveFrame hf)
      fun g hg => hl g (mem_cons_of_mem _ hg)
    refine ⟨hinv, hcount, fun j => ?_⟩
    rw [foldl_cons, hbits, hres]
    by_cases hj : j = f
    · simp [hj]
    · simp [hj]

/-! Addresses and frames. -/

theorem toNat_div_pageSize (address : UInt64) : (address / pageSize).toNat = address.toNat / 4096 :=
  UInt64.toNat_div ..

theorem toNat_pageSize : pageSize.toNat = 2 ^ 12 := rfl

/-- A frame has a byte in the interval. -/
def Touches (start stop : UInt64) (f : Nat) : Prop :=
  f * 4096 < stop.toNat ∧ start.toNat < (f + 1) * 4096

/-- **What `reserve_range` reserves**: every managed frame that the interval touches, unless its
end cannot be rounded up to a page. -/
theorem Inv.reserveRange (h : Inv usable a held) {start stop : UInt64} (hlt : start < stop) :
    Inv usable (a.reserveRange start stop) held ∧
      (a.reserveRange start stop).frameCount = a.frameCount ∧
      ∀ f < a.frameCount, (a.reserveRange start stop).isReserved f = true ↔
        a.isReserved f = true ∨ stop.toNat + 4095 < 2 ^ 64 ∧ Touches start stop f := by
  rw [BitmapFrameAllocator.reserveRange, if_neg (UInt64.not_le.mpr hlt)]
  split
  · next hnone =>
    have := alignUp_eq_none toNat_pageSize hnone
    exact ⟨h, rfl, fun f _ => ⟨.inl, fun hf => hf.resolve_right fun hf => by omega⟩⟩
  · next rounded hsome =>
    obtain ⟨hstop, hrounded⟩ := alignUp_eq_some toNat_pageSize hsome
    obtain ⟨hinv, hcount, hbits⟩ := h.foldl_reserveFrame
      (l := frames (min (start / pageSize).toNat a.frameCount)
        (min (rounded / pageSize).toNat a.frameCount))
      fun f hf => (mem_frames.mp hf).2.trans_le (min_le_right ..)
    refine ⟨hinv, hcount, fun f hf => ?_⟩
    rw [hbits, Bool.or_eq_true, decide_eq_true_eq, mem_frames, toNat_div_pageSize,
      toNat_div_pageSize, hrounded, Touches, or_comm]
    refine or_congr_right ?_
    omega

/-! ## What a request can do -/

theorem frameOf_address (hf : f < 2 ^ 52) : frameOf (address f) = f := by
  have hword : f.toUInt64.toNat = f := Nat.mod_eq_of_lt (by omega)
  have hpage : pageSize.toNat = 4096 := rfl
  rw [frameOf, toNat_div_pageSize, address, UInt64.toNat_mul, hword, hpage]
  omega

/-- What a request does to the bitmaps, by what its reply hands out and takes back. -/
inductive Effect (a : BitmapFrameAllocator) : Request × Reply → BitmapFrameAllocator → Prop
  | idle {event : Request × Reply} (hgranted : granted event = [])
    (hreturned : returned event = []) :
    Effect a event a
  | reserve {start stop : UInt64} (hlt : start < stop) :
    Effect a (.reserveRange start stop, .done) (a.reserveRange start stop)
  | grant {event : Request × Reply} {l : List Nat} (nextSearch : Nat) (hgranted : granted event = l)
    (hreturned : returned event = []) (hnodup : l.Nodup)
    (hfree : ∀ f ∈ l, f < a.frameCount ∧ a.isAllocated f = false) :
    Effect a event { a with
      allocated := setBits a.allocated l true
      freeFrames := a.freeFrames - l.length
      nextSearch }
  | release {event : Request × Reply} {l : List Nat} (nextSearch : Nat)
    (hgranted : granted event = []) (hreturned : returned event = l) (hnodup : l.Nodup)
    (hback : ∀ f ∈ l, f < a.frameCount ∧ a.isAllocated f = true ∧ a.isReserved f = false) :
    Effect a event { a with
      allocated := setBits a.allocated l false
      freeFrames := a.freeFrames + l.length
      nextSearch }

variable {count : Nat}

/-- The search of `allocate` goes once round, so that it comes across every frame. -/
theorem exists_offset {frame : Nat} (start : Nat) (h : frame < count) :
    ∃ offset < count, (start + offset) % count = frame := by
  refine ⟨(frame + (count - start % count)) % count, Nat.mod_lt _ (by omega), ?_⟩
  have hstart : start % count < count := Nat.mod_lt _ (by omega)
  have hdiv := Nat.div_add_mod start count
  have hsum : start + (frame + (count - start % count)) = frame + count * (start / count + 1) := by
    rw [Nat.mul_succ]
    omega
  rw [Nat.add_mod_mod, hsum, Nat.add_mul_mod_self_left, Nat.mod_eq_of_lt h]

/-- **`allocate` fails only when every frame is taken.** -/
theorem Inv.allocate (h : Inv usable a held) : (a.freeFrames = 0 ∧ a.allocate = (none, a)) ∨
      ∃ f < a.frameCount, a.isAllocated f = false ∧
        a.allocate = (some (address f), { a with
          allocated := setBits a.allocated [f] true
          freeFrames := a.freeFrames - 1
          nextSearch := (f + 1) % a.frameCount }) := by
  rw [BitmapFrameAllocator.allocate]
  by_cases hzero : a.freeFrames = 0
  · exact .inl ⟨hzero, if_pos hzero⟩
  right
  rw [if_neg hzero]
  split
  · next offset hfound =>
    have hfree := find?_some hfound
    have hpos := mem_range.mp (mem_of_find?_eq_some hfound)
    rw [Bool.not_eq_true'] at hfree
    exact ⟨_, Nat.mod_lt _ (by omega), hfree, rfl⟩
  · next hnone =>
    obtain ⟨f, hf⟩ := Finset.card_pos.mp (Nat.pos_of_ne_zero (h.count ▸ hzero))
    obtain ⟨hlt, hclear⟩ := mem_clear.mp hf
    obtain ⟨offset, hoffset, rfl⟩ := exists_offset a.nextSearch hlt
    have := find?_eq_none.mp hnone offset (mem_range.mpr hoffset)
    rw [isAllocated, hclear] at this
    exact absurd rfl this

/-- So many free frames from a multiple of the alignment on. -/
def BitmapFrameAllocator.IsRun (a : BitmapFrameAllocator) (count alignment first : Nat) : Prop :=
  alignment ∣ first ∧ first + count ≤ a.frameCount ∧
    ∀ f ∈ frames first (first + count), a.isAllocated f = false

instance (a : BitmapFrameAllocator) (count alignment first : Nat) :
    Decidable (a.IsRun count alignment first) := inferInstanceAs (Decidable (_ ∧ _))

section Contiguous

variable {alignment : UInt64} {k turns candidate start first : Nat}

theorem alignUpIndex_toNat (value : Nat) (alignment : UInt64) :
    alignUpIndex value alignment.toNat = (alignUp value.toUInt64 alignment).map UInt64.toNat := by
  rw [alignUpIndex, show alignment.toNat.toUInt64 = alignment from UInt64.ofNat_toNat]

theorem dvd_of_alignUpIndex (hk : alignment.toNat = 2 ^ k)
    (h : alignUpIndex start alignment.toNat = some first) : alignment.toNat ∣ first := by
  rw [alignUpIndex_toNat] at h
  obtain ⟨rounded, hrounded, rfl⟩ := map_eq_some_iff.mp h
  exact hk ▸ (le_alignUp hk hrounded).2

theorem findContiguousFrom_some (hk : alignment.toNat = 2 ^ k) (hdvd : alignment.toNat ∣ candidate)
    (h : a.findContiguousFrom count alignment.toNat turns candidate = some first) :
    a.IsRun count alignment.toNat first := by
  induction turns generalizing candidate with
  | zero => cases h
  | succ turns ih =>
    rw [findContiguousFrom] at h
    split at h
    · next hin =>
      split at h
      · split at h
        · next hnext => exact ih (dvd_of_alignUpIndex hk hnext) h
        · cases h
      · next hfree =>
        cases h
        exact ⟨hdvd, hin.2, fun f hf => Bool.not_eq_true _ ▸ find?_eq_none.mp hfree f hf⟩
    · cases h

theorem findContiguous_some (hk : alignment.toNat = 2 ^ k)
    (h : a.findContiguous start count alignment.toNat = some first) :
    a.IsRun count alignment.toNat first := by
  obtain ⟨candidate, hcandidate, h⟩ := bind_eq_some_iff.mp h
  exact findContiguousFrom_some hk (dvd_of_alignUpIndex hk hcandidate) h

/-- **`allocate_contiguous` takes a run of free frames or nothing.** -/
theorem allocateContiguous_cases (a : BitmapFrameAllocator) (count alignment : UInt64) :
    a.allocateContiguous count alignment = (none, a) ∨
      ∃ first, a.IsRun count.toNat alignment.toNat first ∧ 0 < count.toNat ∧
        isPowerOfTwo alignment = true ∧
        a.allocateContiguous count alignment = (some (address first), { a with
          allocated := setBits a.allocated (frames first (first + count.toNat)) true
          freeFrames := a.freeFrames - count.toNat
          nextSearch := (first + count.toNat) % a.frameCount }) := by
  rw [allocateContiguous]
  split
  · exact .inl rfl
  · next hargs =>
    split
    · exact .inl rfl
    · next first hfirst =>
      simp only [not_or, Bool.not_eq_true, Bool.not_eq_false'] at hargs
      obtain ⟨k, hk⟩ := exists_eq_two_pow hargs.2.2.1
      have hrun := (or_eq_some_iff.mp hfirst).elim (findContiguous_some hk)
        fun hfirst => findContiguous_some hk hfirst.2
      refine .inr ⟨first, hrun, by omega, hargs.2.2.1, ?_⟩
      rw [foldl_setAllocated]

/-- **No run is skipped.**  A run that begins at the candidate or later begins after the frame that
is in the way, and so not before the next candidate.  The candidate grows with every turn. -/
theorem findContiguousFrom_isSome (hk : alignment.toNat = 2 ^ k) (hbound : a.frameCount < 2 ^ 52)
    (hturns : a.frameCount < candidate + turns) (hle : candidate ≤ first)
    (hrun : a.IsRun count alignment.toNat first) :
    (a.findContiguousFrom count alignment.toNat turns candidate).isSome = true := by
  obtain ⟨hdvd, hend, hfree⟩ := hrun
  induction turns generalizing candidate with
  | zero => omega
  | succ turns ih =>
    rw [findContiguousFrom, if_pos (by omega)]
    split
    · next occupied hoccupied =>
      have hmem := mem_frames.mp (mem_of_find?_eq_some hoccupied)
      have hafter : occupied + 1 ≤ first := by
        by_contra hbefore
        have := hfree occupied (mem_frames.mpr (by omega))
        simp [find?_some hoccupied] at this
      have hword : (occupied + 1).toUInt64.toNat = occupied + 1 := Nat.mod_eq_of_lt (by omega)
      obtain ⟨next, hnext, hnextle⟩ := exists_alignUp_le hk (hk ▸ hdvd)
        (by omega : (occupied + 1).toUInt64.toNat ≤ first) (by omega)
      have := (le_alignUp hk hnext).1
      rw [alignUpIndex_toNat, hnext]
      exact ih (by omega) hnextle
    · rfl

/-- The search from the beginning finds a run if there is one. -/
theorem findContiguous_zero_isSome (hk : alignment.toNat = 2 ^ k) (hbound : a.frameCount < 2 ^ 52)
    (hrun : a.IsRun count alignment.toNat first) :
    (a.findContiguous 0 count alignment.toNat).isSome = true := by
  have hzero : alignUpIndex 0 alignment.toNat = some 0 := by
    obtain ⟨zero, hzero, hle⟩ := exists_alignUp_le hk (Nat.dvd_zero _)
      (le_rfl : (Nat.toUInt64 0).toNat ≤ 0) (by decide)
    rw [alignUpIndex_toNat, hzero]
    exact congrArg some (Nat.le_zero.mp hle)
  rw [findContiguous, hzero]
  exact findContiguousFrom_isSome hk hbound (by omega) (Nat.zero_le _) hrun

end Contiguous

theorem releaseFault_eq_none (h : a.releaseFault f = none) :
    a.isAllocated f = true ∧ a.isReserved f = false := by
  rw [releaseFault] at h
  cases hres : a.isReserved f with
  | true => simp [hres] at h
  | false =>
    cases hset : a.isAllocated f with
    | true => exact ⟨rfl, rfl⟩
    | false => simp [hres, hset] at h

/-- **`deallocate_contiguous` takes back a run of frames that may come back, or nothing.** -/
theorem deallocateContiguous_cases (a : BitmapFrameAllocator) (firstFrame count : UInt64) :
    (∃ e, a.deallocateContiguous firstFrame count = (.error e, a)) ∨
      (∀ f ∈ frames (frameOf firstFrame) (frameOf firstFrame + count.toNat),
        f < a.frameCount ∧ a.isAllocated f = true ∧ a.isReserved f = false) ∧
      a.deallocateContiguous firstFrame count = (.ok (), { a with
        allocated := setBits a.allocated
          (frames (frameOf firstFrame) (frameOf firstFrame + count.toNat)) false
        freeFrames := a.freeFrames + count.toNat
        nextSearch := frameOf firstFrame }) := by
  rw [deallocateContiguous]
  split
  · exact .inl ⟨_, rfl⟩
  split
  · exact .inl ⟨_, rfl⟩
  dsimp only
  split
  · exact .inl ⟨_, rfl⟩
  next hin =>
  split
  · exact .inl ⟨_, rfl⟩
  · next hnone =>
    refine .inr ⟨fun f hf => ⟨?_, releaseFault_eq_none (findSome?_eq_none_iff.mp hnone f hf)⟩, ?_⟩
    · have := (mem_frames.mp hf).2
      rw [frameOf] at this
      omega
    · rw [foldl_setAllocated]
      rfl

theorem frames_one (first : Nat) : frames first (first + 1) = [first] := by
  simp [frames]

/-- Every request has one of the effects. -/
theorem Inv.effect (h : Inv usable a held) (r : Request) :
    Effect a (r, (a.perform r).1) (a.perform r).2 := by
  have hrun : ∀ first count : Nat, (frames first (first + count)).length = count := by
    intro first count
    rw [length_frames]
    omega
  have hfirst : ∀ {first : Nat}, first < a.frameCount → frameOf (address first) = first :=
    fun hlt => frameOf_address (hlt.trans h.bound)
  cases r with
  | reserveRange start stop =>
    by_cases hlt : start < stop
    · exact .reserve hlt
    · rw [perform, BitmapFrameAllocator.reserveRange, if_pos (UInt64.not_lt.mp hlt)]
      exact .idle rfl rfl
  | allocate =>
    rw [perform]
    obtain ⟨-, hnone⟩ | ⟨f, hlt, hfree, hsome⟩ := h.allocate
    · rw [hnone]
      exact .idle rfl rfl
    · rw [hsome]
      exact .grant _ (congrArg (fun g => [g]) (hfirst hlt)) rfl (nodup_singleton f)
        (by simpa using ⟨hlt, hfree⟩)
  | allocateContiguous count alignment =>
    rw [perform]
    obtain hnone | ⟨first, ⟨-, hfit, hfree⟩, hpos, -, hsome⟩ :=
      allocateContiguous_cases a count alignment
    · rw [hnone]
      exact .idle rfl rfl
    · have hgranted : granted (.allocateContiguous count alignment, .frame (some (address first))) =
          frames first (first + count.toNat) := by
        rw [granted, hfirst (by omega)]
      have := Effect.grant ((first + count.toNat) % a.frameCount) hgranted rfl (nodup_frames ..)
        fun f hf => ⟨(mem_frames.mp hf).2.trans_le hfit, hfree f hf⟩
      rw [hrun] at this
      rw [hsome]
      exact this
  | deallocate frame =>
    rw [perform, BitmapFrameAllocator.deallocate]
    obtain ⟨e, herror⟩ | ⟨hback, hok⟩ := deallocateContiguous_cases a frame 1
    · rw [herror]
      exact .idle rfl rfl
    · have hreturned : returned (.deallocate frame, .released (.ok ())) =
          frames (frameOf frame) (frameOf frame + (1 : UInt64).toNat) := (frames_one _).symm
      have := Effect.release (frameOf frame) rfl hreturned (nodup_frames ..) hback
      rw [hrun] at this
      rw [hok]
      exact this
  | deallocateContiguous firstFrame count =>
    rw [perform]
    obtain ⟨e, herror⟩ | ⟨hback, hok⟩ := deallocateContiguous_cases a firstFrame count
    · rw [herror]
      exact .idle rfl rfl
    · have hreturned : returned (.deallocateContiguous firstFrame count, .released (.ok ())) =
          frames (frameOf firstFrame) (frameOf firstFrame + count.toNat) := rfl
      have := Effect.release (frameOf firstFrame) rfl hreturned (nodup_frames ..) hback
      rw [hrun] at this
      rw [hok]
      exact this

/-! ## Whole runs -/

variable {event : Request × Reply} {b : BitmapFrameAllocator}

/-- **A request keeps the books**: whatever it hands out or takes back is entered. -/
theorem Inv.of_effect (h : Inv usable a held) (he : Effect a event b) :
    Inv usable b (handOver held event) := by
  cases he with
  | idle hgranted hreturned =>
    rw [handOver, hgranted, hreturned]
    exact h
  | reserve hlt => exact (h.reserveRange hlt).1
  | grant nextSearch hgranted hreturned hnodup hfree =>
    rw [handOver, hgranted, hreturned]
    exact h.grant hnodup hfree nextSearch
  | release nextSearch hgranted hreturned hnodup hback =>
    rw [handOver, hgranted, hreturned]
    exact h.release hnodup hback nextSearch

/-- The number of frames never changes, and a reserved frame stays reserved. -/
theorem Inv.effect_le (h : Inv usable a held) (he : Effect a event b) :
    b.frameCount = a.frameCount ∧
      ∀ f < a.frameCount, a.isReserved f = true → b.isReserved f = true := by
  cases he with
  | idle => exact ⟨rfl, fun _ _ h => h⟩
  | reserve hlt =>
    obtain ⟨-, hcount, hbits⟩ := h.reserveRange hlt
    exact ⟨hcount, fun f hf hres => (hbits f hf).mpr (.inl hres)⟩
  | grant | release => exact ⟨rfl, fun _ _ h => h⟩

/-- Nothing goes out that is not free, and so nothing that is reserved or out already. -/
theorem Inv.granted_free (h : Inv usable a held) (he : Effect a event b) (hf : f ∈ granted event) :
    f < a.frameCount ∧ a.isAllocated f = false ∧ a.isReserved f = false ∧ f ∉ held := by
  have hfree : f < a.frameCount ∧ a.isAllocated f = false := by
    cases he with
    | idle hgranted => simp [hgranted] at hf
    | reserve => simp [granted] at hf
    | grant _ hgranted _ _ hfree => exact hfree f (hgranted ▸ hf)
    | release _ hgranted => simp [hgranted] at hf
  obtain ⟨hlt, hclear⟩ := hfree
  refine ⟨hlt, hclear, ?_, fun hheld => ?_⟩
  · by_contra hres
    have := h.pinned f hlt (Bool.not_eq_false _ ▸ hres)
    rw [hclear] at this
    cases this
  · have := (h.out f hheld).2
    rw [hclear] at this
    cases this

/-- Nothing is taken back that is not out, or that is reserved. -/
theorem Inv.returned_held (h : Inv usable a held) (he : Effect a event b)
    (hf : f ∈ returned event) :
    f ∈ held ∧ a.isReserved f = false := by
  cases he with
  | idle _ hreturned => simp [hreturned] at hf
  | reserve => simp [returned] at hf
  | grant _ _ hreturned => simp [hreturned] at hf
  | release _ _ hreturned _ hback =>
    obtain ⟨hlt, hset, hres⟩ := hback f (hreturned ▸ hf)
    exact ⟨h.returnable f hlt hset hres, hres⟩

theorem outstanding_append (events : List (Request × Reply)) (event : Request × Reply) :
    outstanding (events ++ [event]) = handOver (outstanding events) event := by
  simp [outstanding]

/-- **The books are right after every run**, which also takes back no reservation. -/
theorem Inv.run (h : Inv usable a held) (rs : List Request) :
    Inv usable (final perform a rs) ((trace perform a rs).foldl handOver held) ∧
      (final perform a rs).frameCount = a.frameCount ∧
      ∀ f < a.frameCount, a.isReserved f = true → (final perform a rs).isReserved f = true := by
  induction rs generalizing a held with
  | nil => exact ⟨h, rfl, fun _ _ h => h⟩
  | cons r rest ih =>
    have he := h.effect r
    obtain ⟨hcount, hres⟩ := h.effect_le he
    obtain ⟨ihinv, ihcount, ihres⟩ := ih (h.of_effect he)
    exact ⟨ihinv, ihcount.trans hcount, fun f hf hf' => ihres f (hcount ▸ hf) (hres f hf hf')⟩

end Sisyphus.Abyss
