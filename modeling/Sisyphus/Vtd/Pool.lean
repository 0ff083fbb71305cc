import Sisyphus.Vtd.Memory

/-!
# A page memory and an invalidator that fail on demand

The tests of `hw/vtd_slpt.rs` run the core on sixteen simulated pages and inject failures.  `Pool`
and `Script` are such devices: each call looks up in a list whether it fails, and works once the
list is used up.  `Pool` obeys the contract of a page memory for every list (`Pool.contract`).  It
does not check who owns a frame that is read or written, as physical memory does not.
-/

set_option autoImplicit false

namespace Sisyphus.Slpt

open Fallible SlptPageMemory

/-- Pages at the addresses 0x1000 to 0x10000. -/
structure Pool where
  used : List SlptFrame
  entries : SlptFrame → TableIndex → UInt64
  /-- Which of the next calls fail. -/
  failures : List Bool

namespace Pool

def pageCount : Nat := 16

def frames : List SlptFrame :=
  (List.range pageCount).filterMap fun i =>
    SlptFrame.fromPhysicalAddress ((i + 1).toUInt64 * pageSize)

/-- Fails if the next call is to fail. -/
def call {α : Type} (x : EStateM SlptMemoryError Pool α) : EStateM SlptMemoryError Pool α :=
    fun m =>
  match m.failures with
  | true :: rest => .error 7 { m with failures := rest }
  | false :: rest => x { m with failures := rest }
  | [] => x m

def write (f : SlptFrame) (new : TableIndex → Option UInt64) (m : Pool) : Pool :=
  { m with entries := fun g i => if g = f then (new i).getD (m.entries g i) else m.entries g i }

def allocate : EStateM SlptMemoryError Pool SlptFrame := fun m =>
  match frames.find? fun f => !m.used.contains f with
  | some f =>
    .ok f (write f (fun _ => some 0xa5a5a5a5a5a5a5a5) { m with used := f :: m.used })
  | none => .error 7 m

instance : SlptPageMemory Pool where
  allocateTable := call allocate
  zeroTable f := call (modify (write f fun _ => some 0))
  readEntry f i := call do return (← get).entries f i
  writeEntry f i e := call (modify (write f fun j => if j = i then some e else none))
  releaseTable f := call (modify fun m => { m with used := m.used.filter (· ≠ f) })

def view : View Pool where
  owned m f := f ∈ m.used
  entry m := m.entries

variable {α : Type} {m : Pool}

/-- A call that fails has no effect that can be seen, and one that does not is carried out. -/
theorem ensures_call {x : EStateM SlptMemoryError Pool α} {Q : α → Pool → Prop}
    (h : ∀ rest, Ensures x { m with failures := rest } Q fun _ m' => view.Same m m') :
    Ensures (call x) m Q fun _ m' => view.Same m m' := by
  rw [Ensures, call]
  rcases hm : m.failures with _ | ⟨_ | _, rest⟩
  · have := h []
    rw [← hm] at this
    exact this
  · exact h rest
  · exact ⟨fun _ => Iff.rfl, fun _ _ _ => rfl⟩

theorem wrote_write (f : SlptFrame) (new : TableIndex → Option UInt64) (rest : List Bool) :
    view.Wrote m (write f new { m with failures := rest }) f new where
  owned _ := Iff.rfl
  set _ i e h := by simp [view, write, h]
  entry g i _ h := by
    by_cases hg : g = f
    · subst hg
      simp only [true_and, Option.not_isSome_iff_eq_none] at h
      simp [view, write, h]
    · simp [view, write, hg]

/-- The pool obeys the contract of a page memory. -/
def contract : Contract Pool where
  toView := view
  allocate m := ensures_call fun rest => by
    rw [Ensures, allocate]
    cases hf : frames.find? fun f => !m.used.contains f with
    | none => exact ⟨fun _ => Iff.rfl, fun _ _ _ => rfl⟩
    | some f =>
      have hnot : f ∉ m.used := by simpa using List.find?_some hf
      refine ⟨hnot, fun g => ?_, fun g i hg => ?_⟩
      · simp [view, write, or_comm]
      · have hne : g ≠ f := fun he => hnot (he ▸ hg)
        simp [view, write, hne]
  zero f m := ensures_call fun rest => wrote_write f _ rest
  read f i m := ensures_call fun rest => ⟨⟨fun _ => Iff.rfl, fun _ _ _ => rfl⟩, fun _ => rfl⟩
  write f i e m := ensures_call fun rest => wrote_write f _ rest
  release f m := ensures_call fun rest => by
    refine ⟨fun g => ?_, fun g i hg => rfl⟩
    simp [view]

end Pool

/-- An invalidator of which some calls fail. -/
structure Script where
  failures : List Bool

instance : SlptInvalidator Script where
  invalidateAfterPageTableChange _ := fun i =>
    match i.failures with
    | true :: rest => .error 11 ⟨rest⟩
    | false :: rest => .ok () ⟨rest⟩
    | [] => .ok () i

end Sisyphus.Slpt
