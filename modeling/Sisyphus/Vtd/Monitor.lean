import Sisyphus.Vtd.Memory

/-!
# Watching the devices of a core

The claims one makes about a page-table core are partly about the calls it makes: that it never
touches a table it has given back, how many page-memory calls failed, whether an invalidation
failed.  A `Monitor` is what a proof about the core has to know to say such things.  It has a
property `clean` of the page memory that survives every call for a frame the core owns, and it
counts: the calls of the page memory that failed, and the invalidations that failed.

`Monitor.Ran` and `Monitor.Missed` are the two forms in which the specifications of the core
mention it: from this memory to that one so many calls have failed, and the memory is still clean;
from this invalidator to that one so many invalidations have failed.  Both are stated under a
condition, so that a proof that does not need them can drop them (`Monitor.blind`).

`Logged` wraps a page memory so that it records every call made to it.  Its log never influences
the core; `Disciplined` is the statement that no call was for a frame that had been released and
not been allocated again.
-/

set_option autoImplicit false

namespace Sisyphus.Slpt

open Fallible SlptPageMemory SlptInvalidator

/-! ## Monitors -/

/-- What is watched while a core runs. -/
structure Monitor {M : Type} [SlptPageMemory M] (c : Contract M) (I : Type) [SlptInvalidator I]
    where
  clean : M → Prop
  faults : M → Nat
  /-- Whether failed invalidations are counted. -/
  counted : Prop
  misses : I → Nat
  allocate : ∀ m, clean m → Ensures (allocateTable : EStateM SlptMemoryError M SlptFrame) m
    (fun _ m' => clean m' ∧ faults m' = faults m) (fun _ m' => clean m' ∧ faults m' = faults m + 1)
  zero : ∀ f m, clean m → c.owned m f → Ensures (zeroTable f) m
    (fun _ m' => clean m' ∧ faults m' = faults m) (fun _ m' => clean m' ∧ faults m' = faults m + 1)
  read : ∀ f i m, clean m → c.owned m f → Ensures (readEntry f i) m
    (fun _ m' => clean m' ∧ faults m' = faults m) (fun _ m' => clean m' ∧ faults m' = faults m + 1)
  write : ∀ f i e m, clean m → c.owned m f → Ensures (writeEntry f i e) m
    (fun _ m' => clean m' ∧ faults m' = faults m) (fun _ m' => clean m' ∧ faults m' = faults m + 1)
  release : ∀ f m, clean m → c.owned m f → Ensures (releaseTable f) m
    (fun _ m' => clean m' ∧ faults m' = faults m) (fun _ m' => clean m' ∧ faults m' = faults m + 1)
  invalidate : counted → ∀ iova (i : I), Ensures (invalidateAfterPageTableChange iova) i
    (fun _ i' => misses i' = misses i) (fun _ i' => misses i' = misses i + 1)

variable {f : SlptFrame}

namespace Monitor

variable {M I : Type} [SlptPageMemory M] [SlptInvalidator I] {c : Contract M}

/-- A monitor that sees nothing. -/
def blind (c : Contract M) (I : Type) [SlptInvalidator I] : Monitor c I where
  clean _ := False
  faults _ := 0
  counted := False
  misses _ := 0
  allocate _ h := h.elim
  zero _ _ h := h.elim
  read _ _ _ h := h.elim
  write _ _ _ _ h := h.elim
  release _ _ h := h.elim
  invalidate h := h.elim

/-- From `m` to `m'`, `d` calls have failed. -/
def Ran (μ : Monitor c I) (strict : Prop) (d : Nat) (m m' : M) : Prop :=
  strict → μ.clean m → μ.clean m' ∧ μ.faults m' = μ.faults m + d

variable {μ : Monitor c I} {strict : Prop} {m m' m'' : M}

theorem Ran.refl (m : M) : μ.Ran strict 0 m m := fun _ h => ⟨h, rfl⟩

theorem Ran.trans {d e : Nat} (h : μ.Ran strict d m m') (h' : μ.Ran strict e m' m'') :
    μ.Ran strict (d + e) m m'' := by
  intro hs hm
  obtain ⟨hm', hd⟩ := h hs hm
  obtain ⟨hm'', he⟩ := h' hs hm'
  exact ⟨hm'', by omega⟩

/-- After calls without failure. -/
theorem Ran.zero_trans {d : Nat} (h : μ.Ran strict 0 m m') (h' : μ.Ran strict d m' m'') :
    μ.Ran strict d m m'' := by
  simpa using h.trans h'

theorem Ran.trans_zero {d : Nat} (h : μ.Ran strict d m m') (h' : μ.Ran strict 0 m' m'') :
    μ.Ran strict d m m'' := h.trans h'

theorem Ran.of_ensures {α : Type} {x : EStateM SlptMemoryError M α} {Q : α → M → Prop}
    {E : SlptMemoryError → M → Prop} (h : Ensures x m Q E)
    (hμ : strict → μ.clean m → Ensures x m (fun _ m' => μ.clean m' ∧ μ.faults m' = μ.faults m)
      (fun _ m' => μ.clean m' ∧ μ.faults m' = μ.faults m + 1)) :
    Ensures x m (fun a m' => Q a m' ∧ μ.Ran strict 0 m m')
      (fun e m' => E e m' ∧ μ.Ran strict 1 m m') := by
  rw [Ensures] at h ⊢
  cases hx : x m with
  | ok a m' =>
    rw [hx] at h
    exact ⟨h, fun hs hc => (hμ hs hc).of_ok hx⟩
  | error e m' =>
    rw [hx] at h
    exact ⟨h, fun hs hc => (hμ hs hc).of_error hx⟩

/-- From `i` to `i'`, `e` invalidations have failed. -/
def Missed (μ : Monitor c I) (e : Nat) (i i' : I) : Prop :=
  μ.counted → μ.misses i' = μ.misses i + e

theorem Missed.refl (i : I) : μ.Missed 0 i i := fun _ => rfl

/-- After invalidations that went well. -/
theorem Missed.zero_trans {e : Nat} {i i' i'' : I} (h : μ.Missed 0 i i') (h' : μ.Missed e i' i'') :
    μ.Missed e i i'' := by
  intro hc
  rw [h' hc, h hc]
  rfl

/-! The calls of the devices, with what the contract and the monitor say about them. -/

variable (μ strict)

theorem ensures_allocate (m : M) : Ensures (allocateTable : EStateM SlptMemoryError M SlptFrame) m
      (fun f m' => (¬c.owned m f ∧ (∀ g, c.owned m' g ↔ c.owned m g ∨ g = f) ∧
        ∀ g i, c.owned m g → c.entry m' g i = c.entry m g i) ∧ μ.Ran strict 0 m m')
      (fun _ m' => c.Same m m' ∧ μ.Ran strict 1 m m') :=
  Ran.of_ensures (c.allocate m) fun _ hc => μ.allocate m hc

theorem ensures_zero (h : strict → c.owned m f) : Ensures (zeroTable f) m
      (fun _ m' => c.Wrote m m' f (fun _ => some 0) ∧ μ.Ran strict 0 m m')
      (fun _ m' => c.Same m m' ∧ μ.Ran strict 1 m m') :=
  Ran.of_ensures (c.zero f m) fun hs hc => μ.zero f m hc (h hs)

theorem ensures_read (i : TableIndex) (h : strict → c.owned m f) : Ensures (readEntry f i) m
      (fun e m' => (c.Same m m' ∧ (c.owned m f → e = c.entry m f i)) ∧ μ.Ran strict 0 m m')
      (fun _ m' => c.Same m m' ∧ μ.Ran strict 1 m m') :=
  Ran.of_ensures (c.read f i m) fun hs hc => μ.read f i m hc (h hs)

theorem ensures_write (i : TableIndex) (e : UInt64) (h : strict → c.owned m f) :
    Ensures (writeEntry f i e) m
      (fun _ m' => c.Wrote m m' f (fun j => if j = i then some e else none) ∧ μ.Ran strict 0 m m')
      (fun _ m' => c.Same m m' ∧ μ.Ran strict 1 m m') :=
  Ran.of_ensures (c.write f i e m) fun hs hc => μ.write f i e m hc (h hs)

theorem ensures_release (h : strict → c.owned m f) : Ensures (releaseTable f) m
      (fun _ m' => ((∀ g, c.owned m' g ↔ c.owned m g ∧ g ≠ f) ∧
        ∀ g i, c.owned m' g → c.entry m' g i = c.entry m g i) ∧ μ.Ran strict 0 m m')
      (fun _ m' => c.Same m m' ∧ μ.Ran strict 1 m m') :=
  Ran.of_ensures (c.release f m) fun hs hc => μ.release f m hc (h hs)

theorem ensures_invalidate (iova : UInt64) (i : I) :
    Ensures (invalidateAfterPageTableChange iova) i (fun _ i' => μ.Missed 0 i i')
      (fun _ i' => μ.Missed 1 i i') := by
  by_cases hc : μ.counted
  · exact (μ.invalidate hc iova i).mono (fun _ _ h _ => h) fun _ _ h _ => h
  · rw [Ensures]
    cases invalidateAfterPageTableChange iova i <;> exact fun h => absurd h hc

end Monitor

/-! ## Logs -/

/-- The calls that name a frame. -/
inductive Access where
  | zero
  | read
  | write
  | release
  deriving DecidableEq

/-- A call to the page memory, and how it went. -/
inductive Event where
  | allocation (result : Option SlptFrame)
  | access (kind : Access) (frame : SlptFrame) (ok : Bool)

def Event.failed : Event → Bool
  | .allocation result => result.isNone
  | .access _ _ ok => !ok

/-- The frame was released, and not allocated since.  Logs have the newest event first. -/
def released (f : SlptFrame) : List Event → Bool
  | [] => false
  | .allocation result :: log => if result = some f then false else released f log
  | .access kind g ok :: log => (kind == .release && g == f && ok) || released f log

/-- No call was for a frame that had been released. -/
inductive Disciplined : List Event → Prop
  | nil : Disciplined []
  | allocation {result : Option SlptFrame} {log : List Event} (rest : Disciplined log) :
      Disciplined (.allocation result :: log)
  | access {kind : Access} {f : SlptFrame} {ok : Bool} {log : List Event}
      (live : released f log = false) (rest : Disciplined log) :
      Disciplined (.access kind f ok :: log)

def decideDisciplined : (log : List Event) → Decidable (Disciplined log)
  | [] => .isTrue .nil
  | .allocation _ :: log =>
    have := decideDisciplined log
    decidable_of_iff (Disciplined log) ⟨.allocation, fun h => by cases h; assumption⟩
  | .access _ f _ :: log =>
    have := decideDisciplined log
    decidable_of_iff (released f log = false ∧ Disciplined log)
      ⟨fun h => .access h.1 h.2, fun h => by cases h; exact ⟨by assumption, by assumption⟩⟩

instance : DecidablePred Disciplined := decideDisciplined

/-- A page memory with the log of the calls made to it. -/
structure Logged (M : Type) where
  memory : M
  log : List Event

namespace Logged

variable {M α : Type}

/-- Makes a call and writes it down. -/
def record (event : Option α → Event) (x : EStateM SlptMemoryError M α) :
    EStateM SlptMemoryError (Logged M) α := fun s =>
  match x s.memory with
  | .ok a m => .ok a ⟨m, event (some a) :: s.log⟩
  | .error e m => .error e ⟨m, event none :: s.log⟩

@[simp] theorem ensures_record {event : Option α → Event} {x : EStateM SlptMemoryError M α}
    {s : Logged M} {Q : α → Logged M → Prop} {E : SlptMemoryError → Logged M → Prop} :
    Ensures (record event x) s Q E ↔ Ensures x s.memory
      (fun a m => Q a ⟨m, event (some a) :: s.log⟩) (fun e m => E e ⟨m, event none :: s.log⟩) := by
  rw [Ensures, record, Ensures]
  cases x s.memory <;> rfl

/-- The number of failed calls. -/
def faults (s : Logged M) : Nat := s.log.countP Event.failed

theorem faults_cons (s : Logged M) (m : M) (e : Event) :
    faults ⟨m, e :: s.log⟩ = faults s + if e.failed then 1 else 0 := by
  simp [faults, List.countP_cons]

variable [SlptPageMemory M]

instance : SlptPageMemory (Logged M) where
  allocateTable := record .allocation allocateTable
  zeroTable f := record (fun r => .access .zero f r.isSome) (zeroTable f)
  readEntry f i := record (fun r => .access .read f r.isSome) (readEntry f i)
  writeEntry f i e := record (fun r => .access .write f r.isSome) (writeEntry f i e)
  releaseTable f := record (fun r => .access .release f r.isSome) (releaseTable f)

/-- The log does not get in the way of the contract. -/
def contract (c : Contract M) : Contract (Logged M) where
  owned s := c.owned s.memory
  entry s := c.entry s.memory
  allocate s := ensures_record.mpr
    ((c.allocate s.memory).imp_error fun _ _ h => ⟨h.owned, h.entry⟩)
  zero f s := ensures_record.mpr
    ((c.zero f s.memory).mono (fun _ _ h => ⟨h.owned, h.set, h.entry⟩) fun _ _ h =>
      ⟨h.owned, h.entry⟩)
  read f i s := ensures_record.mpr
    ((c.read f i s.memory).mono (fun _ _ h => ⟨⟨h.1.owned, h.1.entry⟩, h.2⟩)
      fun _ _ h => ⟨h.owned, h.entry⟩)
  write f i e s := ensures_record.mpr
    ((c.write f i e s.memory).mono (fun _ _ h => ⟨h.owned, h.set, h.entry⟩)
      fun _ _ h => ⟨h.owned, h.entry⟩)
  release f s := ensures_record.mpr
    ((c.release f s.memory).imp_error fun _ _ h => ⟨h.owned, h.entry⟩)

/-- The log is disciplined, and no frame of the core counts as released. -/
def Clean (c : Contract M) (s : Logged M) : Prop :=
  Disciplined s.log ∧ ∀ f, c.owned s.memory f → released f s.log = false

variable {c : Contract M} {s : Logged M} {m : M}

/-- An access to an owned frame that releases nothing keeps a log clean. -/
theorem Clean.access (h : Clean c s) (hf : c.owned s.memory f) {kind : Access}
    {ok : Bool} (hm : ∀ g, c.owned m g → c.owned s.memory g ∧ ¬(kind = .release ∧ g = f ∧ ok)) :
    Clean c ⟨m, .access kind f ok :: s.log⟩ := by
  refine ⟨.access (h.2 f hf) h.1, fun g hg => ?_⟩
  obtain ⟨hg, hne⟩ := hm g hg
  simp only [released, h.2 g hg, Bool.or_false]
  by_contra hrel
  simp only [Bool.not_eq_false, Bool.and_eq_true, beq_iff_eq] at hrel
  exact hne ⟨hrel.1.1, hrel.1.2.symm, hrel.2⟩

theorem Clean.allocation (h : Clean c s) {result : Option SlptFrame}
    (hm : ∀ g, c.owned m g → c.owned s.memory g ∨ result = some g) :
    Clean c ⟨m, .allocation result :: s.log⟩ := by
  refine ⟨.allocation h.1, fun g hg => ?_⟩
  simp only [released]
  split
  · rfl
  · next hne => exact h.2 g ((hm g hg).resolve_right hne)

/-- The monitor that reads the log, and counts invalidations with `misses` if that is a count. -/
def monitor (c : Contract M) (I : Type) [SlptInvalidator I] (counted : Prop) (misses : I → Nat)
    (invalidate : counted → ∀ iova (i : I), Ensures (invalidateAfterPageTableChange iova) i
      (fun _ i' => misses i' = misses i) (fun _ i' => misses i' = misses i + 1)) :
    Monitor (contract c) I where
  clean := Clean c
  faults := faults
  counted := counted
  misses := misses
  allocate s hs := ensures_record.mpr <| (c.allocate s.memory).mono
    (fun f m h => ⟨hs.allocation fun g hg => by simpa [eq_comm] using (h.2.1 g).mp hg,
      faults_cons ..⟩)
    (fun _ m h => ⟨hs.allocation fun g hg => .inl ((h.owned g).mp hg), faults_cons ..⟩)
  zero f s hs hf := ensures_record.mpr <| (c.zero f s.memory).mono
    (fun _ m h => ⟨hs.access hf fun g hg => ⟨(h.owned g).mp hg, by simp⟩, faults_cons ..⟩)
    (fun _ m h => ⟨hs.access hf fun g hg => ⟨(h.owned g).mp hg, by simp⟩, faults_cons ..⟩)
  read f i s hs hf := ensures_record.mpr <| (c.read f i s.memory).mono
    (fun _ m h => ⟨hs.access hf fun g hg => ⟨(h.1.owned g).mp hg, by simp⟩, faults_cons ..⟩)
    (fun _ m h => ⟨hs.access hf fun g hg => ⟨(h.owned g).mp hg, by simp⟩, faults_cons ..⟩)
  write f i e s hs hf := ensures_record.mpr <| (c.write f i e s.memory).mono
    (fun _ m h => ⟨hs.access hf fun g hg => ⟨(h.owned g).mp hg, by simp⟩, faults_cons ..⟩)
    (fun _ m h => ⟨hs.access hf fun g hg => ⟨(h.owned g).mp hg, by simp⟩, faults_cons ..⟩)
  release f s hs hf := ensures_record.mpr <| (c.release f s.memory).mono
    (fun _ m h => ⟨hs.access hf fun g hg => ⟨((h.1 g).mp hg).1, by simpa using ((h.1 g).mp hg).2⟩,
      faults_cons ..⟩)
    (fun _ m h => ⟨hs.access hf fun g hg => ⟨(h.owned g).mp hg, by simp⟩, faults_cons ..⟩)
  invalidate := invalidate

end Logged

end Sisyphus.Slpt
