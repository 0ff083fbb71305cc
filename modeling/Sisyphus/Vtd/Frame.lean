import Sisyphus.Vtd.Calls

/-!
# What is left of the invalidator

The core never looks at the invalidator.  It only asks it, now and then, to invalidate, so what
survives an invalidation, whether it works or fails, survives every call (`Call.keeps`).  The
proof is one line for each place where the core does something else.
-/

set_option autoImplicit false

namespace Sisyphus.Slpt

open Fallible SlptPageMemory SlptInvalidator Radix

/-! ## Actions -/

section Frame

variable {n : Nat} {M I ε α β : Type} {P : I → Prop}

/-- The action leaves the invalidator with `P` if it finds it so. -/
def Keeps (P : I → Prop) (x : Op n M I ε α) : Prop :=
  ∀ w, P w.invalidator → Ensures x w (fun _ w' => P w'.invalidator) (fun _ w' => P w'.invalidator)

namespace Keeps

theorem pure (a : α) : Keeps P (Pure.pure a : Op n M I ε α) := fun _ h => h

theorem throw (e : ε) : Keeps P (MonadExcept.throw e : Op n M I ε α) := fun _ h => h

theorem throw_bind (e : ε) (f : α → Op n M I ε β) :
    Keeps P (MonadExcept.throw e >>= f : Op n M I ε β) := fun _ h => h

theorem get : Keeps P (MonadState.get : Op n M I ε _) := fun _ h => h

theorem modifyCore (f : Core n → Core n) : Keeps P (Slpt.modifyCore f : Op n M I ε Unit) :=
  fun _ h => h

theorem onMemory (x : EStateM SlptMemoryError M α) : Keeps P (Slpt.onMemory x : Op n M I ε _) := by
  intro w h
  rw [ensures_onMemory, Ensures]
  cases x w.memory <;> exact h

theorem memory? (wrap : SlptMemoryError → ε) (x : EStateM SlptMemoryError M α) :
    Keeps P (Slpt.memory? wrap x : Op n M I ε α) := by
  intro w h
  rw [ensures_memory?, Ensures]
  cases x w.memory <;> exact h

theorem refuse (c : Bool) (e : ε) : Keeps P (Fallible.refuse c e : Op n M I ε Unit) := by
  intro w h
  simp [h]

theorem propagate (r : Except ε α) : Keeps P (Fallible.propagate r : Op n M I ε α) := by
  intro w h
  simp [h]

theorem orThrow (o : Option α) (e : ε) : Keeps P (Fallible.orThrow o e : Op n M I ε α) := by
  intro w h
  simp [h]

theorem bind {x : Op n M I ε α} {f : α → Op n M I ε β} (hx : Keeps P x)
    (hf : ∀ a, Keeps P (f a)) : Keeps P (x >>= f) := by
  intro w h
  rw [ensures_bind]
  exact (hx w h).mono (fun a w' h' => hf a w' h') fun _ _ h' => h'

theorem attempt {ε' : Type} {x : Op n M I ε' α} (hx : Keeps P x) :
    Keeps P (Fallible.attempt x : Op n M I ε _) := by
  intro w h
  rw [ensures_attempt]
  exact hx w h

theorem ite {c : Prop} [Decidable c] {x y : Op n M I ε α} (hx : Keeps P x) (hy : Keeps P y) :
    Keeps P (if c then x else y) := by
  split
  · exact hx
  · exact hy

end Keeps

/-! ## Page-table work -/

theorem keeps_followEntry (entry : UInt64) : Keeps P (followEntry entry : Op n M I ε _) := by
  refine .bind .get fun w => ?_
  cases decodeTablePointer entry with
  | error e => exact .bind (.modifyCore _) fun _ => .pure _
  | ok child => exact .ite (.pure _) (.bind (.modifyCore _) fun _ => .pure _)

variable [SlptPageMemory M]

theorem keeps_linkNewTable (frames : List SlptFrame) (parent : SlptFrame) (index : TableIndex) :
    Keeps P (linkNewTable frames parent index : Op n M I ε _) := by
  have hdiscard : ∀ child error, Keeps P (discardTable child error : Op n M I ε _) := by
    intro child error
    refine .bind (.onMemory _) fun result => ?_
    cases result <;> exact .pure _
  refine .bind (.onMemory _) fun allocated => ?_
  cases allocated with
  | error e => exact .pure _
  | ok child =>
    refine .bind .get fun w => .ite (.bind (.modifyCore _) fun _ => .pure _) ?_
    refine .bind (.onMemory _) fun zeroed => ?_
    cases zeroed with
    | error e => exact hdiscard child e
    | ok _ =>
      refine .bind (.onMemory _) fun written => ?_
      cases written with
      | error e => exact hdiscard child e
      | ok _ => exact .pure _

theorem keeps_buildPath (iova : UInt64) (remaining : Nat) (path : PagePath)
    (links : List NewLink) : Keeps P (buildPath iova remaining path links : Op n M I ε _) := by
  induction remaining generalizing path links with
  | zero => exact .pure _
  | succ remaining ih =>
    refine .bind .get fun w => .ite (.pure _) (.bind (.onMemory _) fun read => ?_)
    cases read with
    | error e => exact .pure _
    | ok entry =>
      refine .ite (.bind (keeps_linkNewTable _ _ _) fun found => ?_)
        (.bind (keeps_followEntry _) fun found => ?_)
      all_goals
        cases found with
        | error e => exact .pure _
        | ok child => exact .ite (.bind (.modifyCore _) fun _ => .pure _) (ih _ _)

theorem keeps_rollBack (links : List NewLink) : Keeps P (rollBack links : Op n M I _ _) := by
  have hloop : ∀ l, Keeps P (rollbackNewLinks l : Op n M I _ _) := by
    intro l
    induction l with
    | nil => exact .pure _
    | cons link rest ih =>
      refine .bind (.memory? _ _) fun _ => .bind (.onMemory _) fun released => ?_
      cases released with
      | ok _ => exact ih
      | error e =>
        refine .bind (.onMemory _) fun written => ?_
        cases written <;> exact .throw _
  refine .bind (.attempt (hloop _)) fun result => ?_
  cases result with
  | ok _ => exact .pure _
  | error e => exact .bind (.modifyCore _) fun _ => .throw _

theorem keeps_publishLeaf (path : PagePath) (links : List NewLink) (leaf : UInt64) :
    Keeps P (publishLeaf path links leaf : Op n M I _ _) := by
  refine .bind .get fun w => .bind (.onMemory _) fun read => ?_
  cases read with
  | error e => exact .bind (keeps_rollBack _) fun _ => .throw _
  | ok existing =>
    refine .ite (.bind (keeps_rollBack _) fun _ => .bind (.modifyCore _) fun _ => .throw _) ?_
    refine .bind (.onMemory _) fun written => ?_
    cases written with
    | error e => exact .bind (keeps_rollBack _) fun _ => .throw _
    | ok _ => exact .pure _

theorem keeps_tableIsEmpty (frame : SlptFrame) (l : List TableIndex) :
    Keeps P (tableIsEmpty frame l : Op n M I _ _) := by
  induction l with
  | nil => exact .pure _
  | cons i rest ih => exact .bind (.memory? _ _) fun entry => .ite (.pure _) ih

/-! ## Calls -/

section Calls

variable [SlptInvalidator I] (hP : ∀ iova i, P i →
  Ensures (invalidateAfterPageTableChange iova) i (fun _ i' => P i') fun _ i' => P i')
include hP

omit [SlptPageMemory M] in
/-- The one way to the invalidator. -/
theorem keeps_onInvalidator (iova : UInt64) :
    Keeps P (onInvalidator (invalidateAfterPageTableChange iova) : Op n M I ε _) := by
  intro w h
  rw [ensures_onInvalidator]
  exact hP iova w.invalidator h

omit [SlptPageMemory M] in
theorem keeps_completeMap (k : Fin n) (r : MappingRecord) (handle : MappingHandle) :
    Keeps P (completeMap k r handle : Op n M I _ _) := by
  refine .bind (keeps_onInvalidator hP _) fun result => ?_
  cases result with
  | ok _ => exact .bind (.modifyCore _) fun _ => .pure _
  | error e => exact .pure _

theorem keeps_mapPage (iova physicalAddress : UInt64) (permissions : DmaPermissions) :
    Keeps P (mapPage iova physicalAddress permissions : Op n M I _ _) := by
  refine .bind (.bind .get fun _ => .refuse _ _) fun _ => .bind .get fun w =>
    .bind (.propagate _) fun _ => .bind (.propagate _) fun _ => .bind (.propagate _) fun bits =>
    .bind (.propagate _) fun _ => .bind (.orThrow _ _) fun k => .bind (keeps_buildPath _ _ _ _) ?_
  rintro ⟨built, links⟩
  cases built with
  | error e =>
    exact .bind (keeps_rollBack _) fun _ => .ite (.bind (.modifyCore _) fun _ => .throw _)
      (.throw _)
  | ok path =>
    exact .bind (keeps_publishLeaf _ _ _) fun _ => .bind (.modifyCore _) fun _ =>
      keeps_completeMap hP _ _ _

theorem keeps_reclaimEmptyTables (k : Fin n) (p : Nat) (r : MappingRecord) :
    Keeps P (reclaimEmptyTables k p r : Op n M I _ _) := by
  have hrestore : ∀ parent index pointer error,
      Keeps P (restorePointer parent index pointer error : Op n M I _ Unit) := by
    intro parent index pointer error
    refine .bind (.onMemory _) fun written => ?_
    cases written <;> exact .throw _
  induction p generalizing r with
  | zero => exact .pure _
  | succ p ih =>
    rw [reclaimEmptyTables]
    generalize List.finRange entriesPerTable = l
    refine .bind .get fun w => .bind (keeps_tableIsEmpty _ l) fun empty => .ite (.pure _) ?_
    refine .bind (.memory? _ _) fun entry => .ite (.throw_bind _ _) ?_
    refine .bind (.memory? _ _) fun _ => .bind (keeps_onInvalidator hP _) fun invalidated => ?_
    cases invalidated with
    | error e => exact hrestore _ _ _ _
    | ok _ =>
      refine .bind (.onMemory _) fun released => ?_
      cases released with
      | error e => exact hrestore _ _ _ _
      | ok _ => exact .bind (.modifyCore _) fun _ => ih _

theorem keeps_finishUnmap (receipt : UnmapReceipt) :
    Keeps P (finishUnmap receipt : Op n M I _ _) := by
  have hclean : ∀ k r, Keeps P (cleanUp k r receipt : Op n M I _ _) := by
    intro k r
    refine .bind (.attempt (keeps_reclaimEmptyTables hP _ _ _)) fun result => ?_
    rcases result with (_ | _ | _) | _
    · exact .pure _
    · exact .pure _
    · exact .bind (.modifyCore _) fun _ => .throw _
    · exact .bind (.modifyCore _) fun _ => .pure _
  refine .bind (.bind .get fun _ => .refuse _ _) fun _ => .bind .get fun w =>
    .bind (.propagate _) ?_
  rintro ⟨k, r⟩
  refine .ite (.bind (keeps_onInvalidator hP _) fun invalidated => ?_)
    (.bind (.refuse _ _) fun _ => hclean _ _)
  cases invalidated with
  | error e => exact .pure _
  | ok _ => exact .bind (.modifyCore _) fun _ => hclean _ _

theorem keeps_clearLeaf (k : Fin n) (r : MappingRecord) (handle : MappingHandle) :
    Keeps P (clearLeaf k r handle : Op n M I _ _) :=
  .bind .get fun _ => .bind (.memory? _ _) fun _ =>
    .ite (.bind (.modifyCore _) fun _ => .throw_bind _ _)
      (.bind (.memory? _ _) fun _ => .bind (.modifyCore _) fun _ => keeps_finishUnmap hP _)

/-- **A call reaches the invalidator through invalidations only.** -/
theorem Call.keeps (call : Call) {w : World n M I} (hw : P w.invalidator) :
    P (call.perform w).2.invalidator := by
  have hopen : ∀ {α β : Type} (x : World n M I → Except SlptFault β)
      (f : β → Op n M I SlptFault α), (∀ b, Keeps P (f b)) →
      Keeps P (do ensureOperational; let b ← Fallible.propagate (x (← get)); f b) :=
    fun x f hf => .bind (.bind .get fun _ => .refuse _ _) fun _ => .bind .get fun _ =>
      .bind (.propagate _) hf
  have hreply {α : Type} {f : α → Reply} {x : Op n M I SlptFault α} (h : Keeps P x) :=
    reply_of_ensures (f := f) (P := fun w' => P w'.invalidator) (h w hw)
  cases call with
  | mapPage iova physicalAddress permissions => exact hreply (keeps_mapPage hP _ _ _)
  | finishMap receipt =>
    exact hreply (hopen _ _ fun b => .bind (.refuse _ _) fun _ => keeps_completeMap hP _ _ _)
  | unmapPage handle | cancelPendingMap receipt =>
    exact hreply (hopen _ _ fun b => .bind (.refuse _ _) fun _ => keeps_clearLeaf hP _ _ _)
  | finishUnmap receipt => exact hreply (keeps_finishUnmap hP _)

end Calls

end Frame

end Sisyphus.Slpt
