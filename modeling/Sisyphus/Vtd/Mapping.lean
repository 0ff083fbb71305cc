import Sisyphus.Vtd.Ledger

/-!
# Mapping a page

`map_page` walks down from the root, links a new table wherever an entry is empty, and writes the
leaf.  When anything fails on the way, the links it made are taken back, newest first.  While it
runs the tables hold more than the ledger knows about: `Grown` describes the tree in terms of the
one the call started from and the new links, and `Grown.ensures_rollback` is the reason why a
failed call leaves no trace.
-/

set_option autoImplicit false

namespace Sisyphus.Slpt

open Slpt.Core Fallible Function List Radix SlptInvalidator SlptPageMemory Words

/-! ## New links -/

/-- The tree `T` is `T₀` with the links added, all of them along the path `idx`. -/
inductive Grown {n : Nat} (core : Core n) (idx : List TableIndex) (T₀ : TableTree) :
    List NewLink → TableTree → Prop
  | nil : Grown core idx T₀ [] T₀
  | snoc {links : List NewLink} {T : TableTree} {p : Nat} {parent child : SlptFrame}
      {i : TableIndex} (grown : Grown core idx T₀ links T)
      (node : T.node (idx.take p) = some parent)
      (index : idx[p]? = some i) (none : T.node (idx.take (p + 1)) = none)
      (below : ∀ j, ¬T.Busy (idx.take (p + 1)) j) (fresh : ¬T.Has child)
      (unknown : core.frameIsKnown child = false) :
      Grown core idx T₀ (links ++ [⟨parent, i, child⟩]) (T.attach (idx.take (p + 1)) child)

variable {n : Nat} {M I : Type} [SlptPageMemory M] [SlptInvalidator I] {c : Contract M}
  {core : Core n} {idx : List TableIndex} {T₀ T : TableTree} {links : List NewLink}
  {path : PagePath} {w w₁ w' : World n M I}

namespace Grown

theorem leaf (h : Grown core idx T₀ links T) : T.leaf = T₀.leaf := by
  induction h with
  | nil => rfl
  | snoc _ _ _ _ _ _ _ ih => exact ih

variable {f : SlptFrame} {q : List TableIndex}

theorem node_mono (h : Grown core idx T₀ links T) (hq : T₀.node q = some f) :
    T.node q = some f := by
  induction h with
  | nil => exact hq
  | snoc _ _ _ none _ _ _ ih => exact Tree.attach_node_of_some none ih

theorem has_mono (h : Grown core idx T₀ links T) (hf : T₀.Has f) : T.Has f := by
  obtain ⟨q, hq⟩ := hf
  exact ⟨q, h.node_mono hq⟩

/-- A table is old, or on the path and unknown to the ledger. -/
theorem node_cases (h : Grown core idx T₀ links T) (hq : T.node q = some f) :
    T₀.node q = some f ∨ (∃ p, q = idx.take p) ∧ core.frameIsKnown f = false := by
  induction h with
  | nil => exact .inl hq
  | @snoc links T p parent child i _ _ _ none _ _ unknown ih =>
    obtain ⟨rfl, rfl⟩ | ⟨-, hq⟩ := Tree.attach_node_eq_some.mp hq
    · exact .inr ⟨⟨p + 1, rfl⟩, unknown⟩
    · exact ih hq

end Grown

section Rollback

variable (μ : Monitor c I) (strict : Prop) {levels : Nat} {root : SlptFrame}

/-- **Taking the new links back restores the tree**, and releases exactly the new tables. -/
theorem Grown.ensures_rollback (h : Grown core idx T₀ links T) (w : World n M I)
    (hrepr : Represents (layout levels) root (c.entry w.memory) T)
    (hown : ∀ f, T.Has f → c.owned w.memory f) :
    Ensures (rollbackNewLinks links.reverse) w
      (fun _ w' => w'.core = w.core ∧ w'.invalidator = w.invalidator ∧
        μ.Ran strict 0 w.memory w'.memory ∧
        Represents (layout levels) root (c.entry w'.memory) T₀ ∧
        ∀ f, c.owned w'.memory f ↔ c.owned w.memory f ∧ (T.Has f → T₀.Has f))
      (fun _ w' => w'.core = w.core ∧ w'.invalidator = w.invalidator ∧
        ∃ d, 1 ≤ d ∧ μ.Ran strict d w.memory w'.memory) := by
  induction h generalizing w with
  | nil => exact ⟨rfl, rfl, .refl _, hrepr, fun f => ⟨fun hf => ⟨hf, id⟩, And.left⟩⟩
  | @snoc links T p parent child i grown node index none below fresh unknown ih =>
    have htake := take_succ_of_getElem? index
    have hhas : ∀ g, (T.attach (idx.take (p + 1)) child).Has g ↔ T.Has g ∨ g = child :=
      fun g => T.has_attach _ _ none
    have hparent : c.owned w.memory parent := hown _ ((hhas _).mpr (.inl ⟨_, node⟩))
    have hchild : c.owned w.memory child := hown _ ((hhas _).mpr (.inr rfl))
    rw [reverse_append, reverse_singleton, singleton_append, rollbackNewLinks,
      ensures_bind, ensures_memory?]
    refine (μ.ensures_write strict i 0 fun _ => hparent).mono ?_ ?_
    · rintro ⟨⟩ m₁ ⟨hw, hr⟩
      -- the link is gone, and with it the new table
      have hdet : Represents (layout levels) root (c.entry m₁) T := by
        have hne : idx.take p ≠ idx.take (p + 1) := by
          intro he
          rw [he, none] at node
          cases node
        have hempty : ∀ j, c.entry w.memory child j = 0 := by
          intro j
          by_contra hj
          have := (hrepr.entry_ne_zero_iff (T.attach_node_self _ _) trivial).mp hj
          rw [Tree.Busy, T.attach_node_of_ne _ _ (by simp), T.attach_leaf] at this
          exact below j this
        rw [← T.detach_attach _ child none]
        nth_rewrite 2 [htake]
        exact hrepr.detach (by rw [T.attach_node_of_ne _ _ hne]; exact node)
          (fun k j hk hkj => hw.entry k j (hown k hk) (by simpa using hkj))
          (by rw [← htake]; exact T.attach_node_self _ _) trivial hempty
          (hw.set hparent i 0 (by simp))
      have hchild₁ : c.owned m₁ child := (hw.owned _).mpr hchild
      rw [ensures_bind, ensures_onMemory]
      refine (μ.ensures_release strict fun _ => hchild₁).mono ?_ ?_
      · rintro ⟨⟩ m₂ ⟨⟨ho, he⟩, hr₂⟩
        have hne : ∀ g, T.Has g → g ≠ child := fun g hg hgc => fresh (hgc ▸ hg)
        have hown₂ : ∀ g, T.Has g → c.owned m₂ g := fun g hg =>
          (ho g).mpr ⟨(hw.owned g).mpr (hown g ((hhas g).mpr (.inl hg))), hne g hg⟩
        refine (ih { w with memory := m₂ }
          (hdet.congr fun f j hf => he f j (hown₂ f hf)) hown₂).mono ?_ ?_
        · rintro ⟨⟩ w' ⟨hcore, hinv, hr₃, hrep, howned⟩
          refine ⟨hcore, hinv, hr.zero_trans (hr₂.zero_trans hr₃), hrep, fun f => ?_⟩
          rw [howned f, ho f, hw.owned f, hhas f]
          constructor
          · rintro ⟨⟨hf, hfc⟩, himp⟩
            exact ⟨hf, fun hor => himp (hor.resolve_right hfc)⟩
          · rintro ⟨hf, himp⟩
            refine ⟨⟨hf, ?_⟩, fun hT => himp (.inl hT)⟩
            rintro rfl
            exact fresh (grown.has_mono (himp (.inr rfl)))
        · rintro e w' ⟨hcore, hinv, d, hd, hr₃⟩
          exact ⟨hcore, hinv, d, hd, hr.zero_trans (hr₂.zero_trans hr₃)⟩
      · rintro e m₂ ⟨hs, hr₂⟩
        have hparent₂ : c.owned m₂ parent := (hs.owned _).mpr ((hw.owned _).mpr hparent)
        rw [ensures_bind, ensures_onMemory]
        refine (μ.ensures_write strict i _ fun _ => hparent₂).mono ?_ ?_
        · rintro ⟨⟩ m₃ ⟨-, hr₃⟩
          exact ⟨rfl, rfl, 1, le_rfl, hr.zero_trans (hr₂.trans_zero hr₃)⟩
        · rintro e' m₃ ⟨-, hr₃⟩
          exact ⟨rfl, rfl, 2, by omega, hr.zero_trans (hr₂.trans hr₃)⟩
    · rintro e m₁ ⟨-, hr⟩
      exact ⟨rfl, rfl, 1, le_rfl, hr⟩

end Rollback

/-! ## Building a path -/

theorem getElem?_pathOf {levels p : Nat} (iova : UInt64) (h : p < levels) :
    (pathOf levels iova)[p]? = some (indexAt levels iova p) := by
  simp [pathOf, h]

variable {iova : UInt64} {fault : SlptFault}

section Build

/-- A path built down to some position. -/
structure Building (c : Contract M) (core : Core n) (T₀ : TableTree) (idx : List TableIndex)
    (m : M) (path : PagePath) (links : List NewLink) (T : TableTree) : Prop where
  stored : Stored c.toView core m T
  grown : Grown core idx T₀ links T
  depth : path.depth = core.levels
  indices : path.indices = idx.take path.indices.length
  frames : path.frames.length = path.indices.length + 1
  along : ∀ q f, path.frames[q]? = some f → T.node (idx.take q) = some f
  /-- The tables further down are not new. -/
  ahead : ∀ q f, path.indices.length < q.length → T.node q = some f → T₀.node q = some f

/-- A complete path. -/
structure Built (c : Contract M) (core : Core n) (T₀ : TableTree) (idx : List TableIndex)
    (m : M) (path : PagePath) (links : List NewLink) (T : TableTree) : Prop where
  stored : Stored c.toView core m T
  grown : Grown core idx T₀ links T
  depth : path.depth = core.levels
  indices : path.indices = idx
  frames : path.frames.length = core.levels
  along : ∀ q f, path.frames[q]? = some f → T.node (idx.take q) = some f

variable {child : SlptFrame} {i : TableIndex}

namespace Building

variable {m : M}

section

variable (h : Building c core T₀ idx m path links T)
include h

theorem exists_parent : ∃ f, path.frames[path.indices.length]? = some f ∧
      T.node (idx.take path.indices.length) = some f := by
  obtain ⟨f, hf⟩ : ∃ f, path.frames[path.indices.length]? = some f :=
    ⟨_, getElem?_eq_getElem (by rw [h.frames]; omega)⟩
  exact ⟨f, hf, h.along _ f hf⟩

theorem not_contains (hne : ∀ q, q ≤ path.indices.length → T.node (idx.take q) ≠ some child) :
    path.frames.contains child = false := by
  rw [Bool.eq_false_iff]
  intro hmem
  obtain ⟨q, hq⟩ := List.mem_iff_getElem?.mp (List.contains_iff_mem.mp hmem)
  have hlen := (List.getElem?_eq_some_iff.mp hq).1
  rw [h.frames] at hlen
  exact hne q (by omega) (h.along q child hq)

/-- Following or making one more link. -/
theorem extend {m' : M} {T' : TableTree} {links' : List NewLink}
    (hstored : Stored c.toView core m' T') (hgrown : Grown core idx T₀ links' T')
    (hi : idx[path.indices.length]? = some i)
    (hmono : ∀ q f, T.node q = some f → T'.node q = some f)
    (hchild : T'.node (idx.take (path.indices.length + 1)) = some child)
    (hahead : ∀ q f, path.indices.length + 1 < q.length → T'.node q = some f → T₀.node q = some f) :
    Building c core T₀ idx m'
      ⟨path.frames ++ [child], path.indices ++ [i], path.depth⟩ links' T' where
  stored := hstored
  grown := hgrown
  depth := h.depth
  indices := by
    rw [length_append, length_singleton, take_succ_of_getElem? hi, ← h.indices]
  frames := by simp [h.frames]
  along := by
    intro q f hq
    rw [getElem?_append] at hq
    split at hq
    · exact hmono _ _ (h.along q f hq)
    · next hlen =>
      rw [h.frames] at hq hlen
      have hq0 : q - (path.indices.length + 1) = 0 := by
        by_contra hne
        rw [getElem?_eq_none (by simp; omega)] at hq
        cases hq
      rw [hq0] at hq
      cases hq
      rw [show q = path.indices.length + 1 by omega]
      exact hchild
  ahead := by
    intro q f hq
    rw [length_append, length_singleton] at hq
    exact hahead q f hq

end

end Building

variable {ε : Type} (μ : Monitor c I) (strict : Prop)

/-- How building a path may fail: with one failed call and the links made so far to take back;
with two failures and a table lost; or, unless the ledger is strict, with the core poisoned. -/
def BuildFailed (core : Core n) (T₀ : TableTree) (idx : List TableIndex) (fault : SlptFault)
    (links : List NewLink) (w w' : World n M I) : Prop :=
  ∃ T, Grown core idx T₀ links T ∧
    Represents (layout core.levels) core.root (c.entry w'.memory) T ∧
    (∀ f, T.Has f → c.owned w'.memory f) ∧ w'.invalidator = w.invalidator ∧
    ((w'.core = core ∧ fault ≠ .rollbackFailed ∧ μ.Ran strict 1 w.memory w'.memory ∧
        ∀ f, c.owned w'.memory f → T.Has f) ∨
      (w'.core = core ∧ fault = .rollbackFailed ∧ μ.Ran strict 2 w.memory w'.memory) ∨
      (w'.core = { core with state := .poisoned } ∧ ¬strict))

variable {μ strict}

theorem BuildFailed.after (h : BuildFailed μ strict core T₀ idx fault links w₁ w')
    (hinv : w₁.invalidator = w.invalidator) (hr : μ.Ran strict 0 w.memory w₁.memory) :
    BuildFailed μ strict core T₀ idx fault links w w' := by
  obtain ⟨T, hg, hrep, hown, hinv', hcases⟩ := h
  refine ⟨T, hg, hrep, hown, hinv'.trans hinv, ?_⟩
  rcases hcases with ⟨hc, hf, hr', ho⟩ | ⟨hc, hf, hr'⟩ | h
  · exact .inl ⟨hc, hf, hr.zero_trans hr', ho⟩
  · exact .inr (.inl ⟨hc, hf, hr.zero_trans hr'⟩)
  · exact .inr (.inr h)

/-- A frame that a strict ledger knows is in the tree. -/
theorem Ledger.has_of_known (h : Ledger strict core T) (hs : strict) {f : SlptFrame}
    (hf : core.frameIsKnown f = true) : f = core.root ∨ T.Has f := by
  rcases frameIsKnown_iff.mp hf with rfl | ⟨k, r, p, hk, hp, hf⟩
  · exact .inl rfl
  · exact .inr ⟨_, ((h.held k r hk).onTree (.inl hs)).node_eq hp hf⟩

/-- A single failure that changed nothing. -/
theorem Building.failed (h : Building c core T₀ idx w.memory path links T) {e : SlptMemoryError}
    (hcore : w'.core = core) (hinv : w'.invalidator = w.invalidator)
    (hsame : c.Same w.memory w'.memory) (hr : μ.Ran strict 1 w.memory w'.memory) :
    BuildFailed μ strict core T₀ idx (.memory e) links w w' := by
  have hst := h.stored.same hsame
  exact ⟨T, h.grown, hst.repr, fun f => (hst.owned f).mpr, hinv,
    .inl ⟨hcore, by simp, hr, fun f => (hst.owned f).mp⟩⟩

/-- What trying to link a table at the next position comes to. -/
def Linked (μ : Monitor c I) (strict : Prop) (core : Core n) (T₀ T : TableTree)
    (idx : List TableIndex) (links : List NewLink) (p : Nat) (w : World n M I) :
    Except SlptFault SlptFrame → World n M I → Prop
  | .ok child, w' => w'.core = core ∧ w'.invalidator = w.invalidator ∧
      μ.Ran strict 0 w.memory w'.memory ∧ ¬T.Has child ∧ core.frameIsKnown child = false ∧
      Stored c.toView core w'.memory (T.attach (idx.take (p + 1)) child)
  | .error fault, w' => BuildFailed μ strict core T₀ idx fault links w w'

variable {E : ε → World n M I → Prop}

theorem ensures_discardTable {p : Nat} {error : SlptMemoryError}
    (hcore : w₁.core = core) (hinv : w₁.invalidator = w.invalidator)
    (hg : Grown core idx T₀ links T)
    (hrepr : Represents (layout core.levels) core.root (c.entry w₁.memory) T)
    (hown : ∀ f, c.owned w₁.memory f ↔ T.Has f ∨ f = child) (hfresh : ¬T.Has child)
    (hr : μ.Ran strict 1 w.memory w₁.memory) :
    Ensures (discardTable child error) w₁ (Linked μ strict core T₀ T idx links p w) E := by
  rw [discardTable, ensures_bind, ensures_onMemory]
  refine (μ.ensures_release strict fun _ => (hown child).mpr (.inr rfl)).mono ?_ ?_
  · rintro ⟨⟩ m' ⟨⟨ho, he⟩, hr'⟩
    have hown' : ∀ f, c.owned m' f ↔ T.Has f := by
      intro f
      rw [ho f, hown f]
      constructor
      · rintro ⟨hf | hf, hne⟩
        · exact hf
        · exact absurd hf hne
      · intro hf
        exact ⟨.inl hf, fun hfc => hfresh (hfc ▸ hf)⟩
    exact ⟨T, hg, hrepr.congr fun f i hf => he f i ((hown' f).mpr hf), fun f => (hown' f).mpr, hinv,
      .inl ⟨hcore, by simp, hr.trans_zero hr', fun f => (hown' f).mp⟩⟩
  · rintro e m' ⟨hs, hr'⟩
    have hown' : ∀ f, T.Has f → c.owned w₁.memory f := fun f hf => (hown f).mpr (.inl hf)
    exact ⟨T, hg, hrepr.congr fun f i hf => hs.entry f i (hown' f hf),
      fun f hf => (hs.owned f).mpr (hown' f hf), hinv, .inr (.inl ⟨hcore, rfl, hr.trans hr'⟩)⟩

theorem Building.ensures_linkNewTable {parent : SlptFrame} (hL : Ledger strict core T₀)
    (h : Building c core T₀ idx w.memory path links T) (hcore : w.core = core)
    (hparent : T.node (idx.take path.indices.length) = some parent)
    (hi : idx[path.indices.length]? = some i) (hlen : path.indices.length + 1 < core.levels)
    (htake : (idx.take path.indices.length).length = path.indices.length)
    (hnone : T.node (idx.take (path.indices.length + 1)) = none) :
    Ensures (linkNewTable path.frames parent i) w
      (Linked μ strict core T₀ T idx links path.indices.length w) E := by
  have hst := h.stored
  rw [linkNewTable, ensures_bind, ensures_onMemory]
  refine (μ.ensures_allocate strict w.memory).mono ?_ ?_
  · rintro child m₁ ⟨⟨hnot, ho, he⟩, hr⟩
    have hfresh : ¬T.Has child := fun hc => hnot ((hst.owned child).mpr hc)
    have hown₁ : ∀ f, c.owned m₁ f ↔ T.Has f ∨ f = child := fun f => by rw [ho f, hst.owned f]
    have hrepr₁ : Represents (layout core.levels) core.root (c.entry m₁) T :=
      hst.repr.congr fun f j hf => he f j ((hst.owned f).mpr hf)
    simp only [ensures_rules, ensures_ite]
    constructor
    · -- the frame is one that the ledger still retains: with nothing lost there is none
      intro hknown
      refine ⟨T, h.grown, hrepr₁, fun f hf => (hown₁ f).mpr (.inl hf), rfl,
        .inr (.inr ⟨by rw [← hcore], ?_⟩)⟩
      intro hs
      simp only [hcore, Bool.or_eq_true, beq_iff_eq] at hknown
      rcases hknown with (hzero | hknown) | hmem
      · exact child.nonzero hzero
      · rcases hL.has_of_known hs hknown with rfl | hT₀
        · exact hfresh ⟨_, hst.repr.root⟩
        · exact hfresh (h.grown.has_mono hT₀)
      · rw [h.not_contains fun q _ hq => hfresh ⟨_, hq⟩] at hmem
        cases hmem
    · intro hknown
      have hunknown : core.frameIsKnown child = false := by
        simp only [hcore, Bool.or_eq_true, not_or, Bool.not_eq_true] at hknown
        exact hknown.1.2
      rw [ensures_onMemory]
      refine (μ.ensures_zero strict fun _ => (hown₁ child).mpr (.inr rfl)).mono ?_ ?_
      · rintro ⟨⟩ m₂ ⟨hz, hr₂⟩
        have hown₂ : ∀ f, c.owned m₂ f ↔ T.Has f ∨ f = child := fun f => by
          rw [hz.owned f, hown₁ f]
        have hne : ∀ f, T.Has f → f ≠ child := fun f hf hfc => hfresh (hfc ▸ hf)
        have hrepr₂ : Represents (layout core.levels) core.root (c.entry m₂) T :=
          hrepr₁.congr fun f j hf =>
            hz.entry f j ((hown₁ f).mpr (.inl hf)) fun hfc => hne f hf hfc.1
        have hzero : ∀ j, c.entry m₂ child j = 0 := fun j =>
          hz.set ((hown₁ child).mpr (.inr rfl)) j 0 rfl
        have hpar : c.owned m₂ parent := (hown₂ parent).mpr (.inl ⟨_, hparent⟩)
        rw [ensures_bind, ensures_onMemory]
        refine (μ.ensures_write strict i _ fun _ => hpar).mono ?_ ?_
        · rintro ⟨⟩ m₃ ⟨hw, hr₃⟩
          refine ⟨hcore, rfl, hr.zero_trans (hr₂.zero_trans hr₃), hfresh, hunknown, ?_, ?_⟩
          · rw [take_succ_of_getElem? hi] at hnone ⊢
            refine hrepr₂.attach hparent
              (fun k j hk hkj => hw.entry k j ((hown₂ k).mpr (.inl hk)) (by simpa using hkj))
              (by rw [htake]; exact hlen) hnone hfresh ?_
              (hw.set hpar i (tablePointer child) (by simp))
            intro j
            rw [hw.entry child j ((hown₂ child).mpr (.inr rfl))
              fun hc => hne parent ⟨_, hparent⟩ hc.1.symm]
            exact hzero j
          · intro f
            rw [hw.owned f, hown₂ f, T.has_attach _ _ hnone]
        · rintro e m₃ ⟨hs, hr₃⟩
          exact ensures_discardTable hcore rfl h.grown
            (hrepr₂.congr fun f j hf => hs.entry f j ((hown₂ f).mpr (.inl hf)))
            (fun f => by rw [hs.owned f, hown₂ f]) hfresh (hr.zero_trans (hr₂.zero_trans hr₃))
      · rintro e m₂ ⟨hs, hr₂⟩
        exact ensures_discardTable hcore rfl h.grown
          (hrepr₁.congr fun f j hf => hs.entry f j ((hown₁ f).mpr (.inl hf)))
          (fun f => by rw [hs.owned f, hown₁ f]) hfresh (hr.zero_trans hr₂)
  · rintro e m₁ ⟨hs, hr⟩
    exact h.failed hcore rfl hs hr

theorem Building.ensures_followEntry (hL : Ledger strict core T₀)
    (h : Building c core T₀ idx w.memory path links T) (hcore : w.core = core)
    (hchild : T.node (idx.take (path.indices.length + 1)) = some child)
    (htake : (idx.take (path.indices.length + 1)).length = path.indices.length + 1) :
    Ensures (followEntry (tablePointer child)) w
      (fun result w' => match result with
        | .ok f => f = child ∧ w' = w
        | .error fault => BuildFailed μ strict core T₀ idx fault links w w') E := by
  simp only [followEntry, decodeTablePointer_tablePointer, ensures_rules, ensures_ite]
  -- a table above the new ones, so the ledger knows it
  intro hunknown
  refine ⟨T, h.grown, h.stored.repr, fun f => (h.stored.owned f).mpr, rfl,
    .inr (.inr ⟨by rw [← hcore], ?_⟩)⟩
  intro hs
  rw [hcore] at hunknown
  exact hunknown (hL.known hs _ child (h.ahead _ child (by omega) hchild))

/-- What building a path comes to. -/
def BuildResult (μ : Monitor c I) (strict : Prop) (core : Core n) (T₀ : TableTree)
    (idx : List TableIndex) (w : World n M I) :
    Except SlptFault PagePath × List NewLink → World n M I → Prop
  | (.ok path, links), w' => w'.core = core ∧ w'.invalidator = w.invalidator ∧
      μ.Ran strict 0 w.memory w'.memory ∧ ∃ T, Built c core T₀ idx w'.memory path links T
  | (.error fault, links), w' => BuildFailed μ strict core T₀ idx fault links w w'

theorem BuildResult.after {result : Except SlptFault PagePath × List NewLink}
    (h : BuildResult μ strict core T₀ idx w₁ result w') (hinv : w₁.invalidator = w.invalidator)
    (hr : μ.Ran strict 0 w.memory w₁.memory) :
    BuildResult μ strict core T₀ idx w result w' := by
  obtain ⟨built, links⟩ := result
  cases built with
  | ok path =>
    obtain ⟨hcore, hinv', hr', hT⟩ := h
    exact ⟨hcore, hinv'.trans hinv, hr.zero_trans hr', hT⟩
  | error fault => exact BuildFailed.after h hinv hr

/-- The loop of `build_path`: one position after the other, the path is followed or made. -/
theorem Building.ensures_buildPath (hL : Ledger strict core T₀) (remaining : Nat)
    (h : Building c core T₀ (pathOf core.levels iova) w.memory path links T) (hcore : w.core = core)
    (hp : path.indices.length + (remaining + 1) = core.levels) :
    Ensures (buildPath iova (remaining + 1) path links) w
      (BuildResult μ strict core T₀ (pathOf core.levels iova) w) E := by
  induction remaining generalizing w path links T with
  | zero =>
    have hi := getElem?_pathOf iova (show path.indices.length < core.levels by omega)
    simp only [buildPath, ensures_rules, if_true, hcore]
    refine ⟨hcore, rfl, .refl _, T, h.stored, h.grown, h.depth, ?_, ?_, h.along⟩
    · show path.indices ++ [_] = _
      rw [h.indices, length_take, length_pathOf, min_eq_left (by omega),
        ← take_succ_of_getElem? hi, take_of_length_le (by rw [length_pathOf]; omega)]
    · show path.frames.length = _
      rw [h.frames]
      omega
  | succ remaining ih =>
    have hlt : path.indices.length < core.levels := by omega
    have hi := getElem?_pathOf iova hlt
    have htake : ∀ q, q ≤ core.levels → ((pathOf core.levels iova).take q).length = q := by
      intro q hq
      rw [length_take, length_pathOf, min_eq_left hq]
    obtain ⟨parent, hframe, hparent⟩ := h.exists_parent
    have hgetD : path.frames.getD path.indices.length core.root = parent := by
      rw [getD_eq_getElem?_getD, hframe, Option.getD_some]
    have hpar : c.owned w.memory parent := (h.stored.owned parent).mpr ⟨_, hparent⟩
    rw [buildPath]
    simp only [ensures_rules, Nat.succ_ne_zero, if_false, hcore, hgetD]
    rw [ensures_onMemory]
    refine (μ.ensures_read strict _ fun _ => hpar).mono ?_ ?_
    · rintro entry m₁ ⟨⟨hs, hentry⟩, hr⟩
      have hentry := hentry hpar
      rw [h.stored.repr.inner hparent (by rw [htake _ (by omega)]; show _ < core.levels; omega) _
        trivial, ← take_succ_of_getElem? hi] at hentry
      have h₁ : Building c core T₀ (pathOf core.levels iova) m₁ path links T :=
        ⟨h.stored.same hs, h.grown, h.depth, h.indices, h.frames, h.along, h.ahead⟩
      cases hnode : T.node ((pathOf core.levels iova).take (path.indices.length + 1)) with
      | none =>
        rw [hnode] at hentry
        subst hentry
        dsimp only [Option.elim_none]
        simp only [BEq.rfl, if_true, ensures_bind]
        refine (Building.ensures_linkNewTable (μ := μ) (w := { w with memory := m₁ }) hL h₁ hcore
          hparent hi (by omega) (htake _ (by omega)) hnode).imp_ok ?_
        rintro (fault | child) w₂ hlinked
        · exact BuildFailed.after hlinked rfl hr
        · obtain ⟨hcore₂, hinv₂, hr₂, hfresh, hunknown, hstored⟩ := hlinked
          have hcontains : path.frames.contains child = false :=
            h.not_contains fun q _ hq => hfresh ⟨_, hq⟩
          simp only [hcontains, Bool.false_eq_true, if_false]
          refine (ih (h₁.extend hstored (.snoc h.grown hparent hi hnode ?_ hfresh hunknown) hi ?_
            (T.attach_node_self _ _) ?_) hcore₂ (by simp; omega)).imp_ok ?_
          · rintro j (hj | hj)
            · exact hj (h.stored.repr.not_node_of_parent_none hnode j)
            · exact hj (h.stored.repr.leaf_eq_zero_of_none hnode j)
          · exact fun q f => Tree.attach_node_of_some hnode
          · intro q f hq hnode'
            rw [T.attach_node_of_ne _ _ (by rintro rfl; rw [htake _ (by omega)] at hq; omega)]
              at hnode'
            exact h.ahead q f (by omega) hnode'
          · rintro result w₃ hres
            exact hres.after hinv₂ (hr.zero_trans hr₂)
      | some child =>
        rw [hnode] at hentry
        subst hentry
        have hne : ((layout core.levels).link child == 0) = false :=
          beq_eq_false_iff_ne.mpr ((layout core.levels).link_ne_zero child)
        dsimp only [Option.elim_some]
        simp only [hne, Bool.false_eq_true, if_false, ensures_bind]
        refine (Building.ensures_followEntry (μ := μ) (w := { w with memory := m₁ }) hL h₁ hcore
          hnode (htake _ (by omega))).imp_ok ?_
        rintro (fault | f) w₂ hres
        · exact BuildFailed.after hres rfl hr
        · obtain ⟨rfl, rfl⟩ := hres
          have hcontains : path.frames.contains f = false := by
            refine h.not_contains fun q hq hf => ?_
            have := congrArg length (h.stored.repr.inj hf hnode)
            rw [htake q (by omega), htake _ (by omega)] at this
            omega
          simp only [hcontains, Bool.false_eq_true, if_false]
          refine (ih (w := { w with memory := m₁ }) (h₁.extend h₁.stored h.grown hi
            (fun _ _ h => h) hnode fun q g hq hg => h.ahead q g (by omega) hg) hcore
            (by simp; omega)).imp_ok ?_
          rintro result w₃ hres
          exact hres.after rfl hr
    · rintro e m₁ ⟨hs, hr⟩
      exact h.failed hcore rfl hs hr

end Build

/-! ## Publishing the leaf -/

section Publish

variable (μ : Monitor c I) (strict : Prop)

/-- A call that failed: the ledger is as it was, and so are the tables unless the core is
poisoned. -/
def MapFailed (T₀ : TableTree) (w w' : World n M I) : Prop :=
  ∃ d, Step μ strict d 0 w w' ∧ w'.invalidator = w.invalidator ∧ w'.core.slots = w.core.slots ∧
    (w'.core.state = .operational → w'.core = w.core ∧ Stored c.toView w.core w'.memory T₀)

variable {μ strict}

theorem MapFailed.after (h : MapFailed μ strict T₀ w₁ w')
    (hcore : w₁.core = w.core) (hinv : w₁.invalidator = w.invalidator)
    (hr : μ.Ran strict 0 w.memory w₁.memory) : MapFailed μ strict T₀ w w' := by
  obtain ⟨d, hstep, hinv', hslots, hback⟩ := h
  exact ⟨d, ⟨hstep.sound, hr.zero_trans hstep.ran, hinv ▸ hstep.missed, hcore ▸ hstep.poisoned⟩,
    hinv'.trans hinv, hslots.trans (by rw [hcore]), hcore ▸ hback⟩

/-- Poisoning is always a way out, at the price of two failures. -/
theorem MapFailed.of_poisoned {d : Nat}
    (hcore : w'.core = { w.core with state := .poisoned }) (hinv : w'.invalidator = w.invalidator)
    (hr : μ.Ran strict d w.memory w'.memory) (hd : strict → 2 ≤ d) :
    MapFailed μ strict T₀ w w' := by
  have hnot : w'.core.state ≠ .operational := by simp [hcore]
  exact ⟨d, ⟨fun hop => absurd hop hnot, hr, hinv ▸ .refl _, fun hs _ => .inr (hd hs)⟩, hinv,
    by rw [hcore], fun hop => absurd hop hnot⟩

/-- The error path of `map_page`. -/
theorem BuildFailed.ensures_rollBack {α : Type} {Q : α → World n M I → Prop}
    (h : BuildFailed μ strict w.core T₀ idx fault links w w₁) (hL : Ledger strict w.core T₀)
    (hop : w.core.state = .operational) :
    Ensures (do
        rollBack links
        if fault == .rollbackFailed then poison
        throw fault) w₁ Q (fun _ w' => MapFailed μ strict T₀ w w') := by
  obtain ⟨T, hg, hrepr, hown, hinv, hcases⟩ := h
  rw [rollBack, ensures_bind, ensures_bind, ensures_attempt]
  refine (hg.ensures_rollback μ strict _ hrepr hown).mono ?_ ?_
  · rintro ⟨⟩ ⟨_, m₂, _⟩ ⟨rfl, rfl, hr₂, hrepr₂, hown₂⟩
    obtain ⟨_, m₁, _⟩ := w₁
    obtain rfl := hinv
    rcases hcases with ⟨rfl, hfault, hr, hall⟩ | ⟨rfl, rfl, hr⟩ | ⟨rfl, hns⟩
    · have hf : (fault == .rollbackFailed) = false := by simpa using hfault
      simp only [ensures_rules, hf, if_false]
      have hback : Stored c.toView w.core m₂ T₀ := by
        refine ⟨hrepr₂, fun f => ?_⟩
        rw [hown₂ f]
        exact ⟨fun hf => hf.2 (hall f hf.1), fun hf =>
          ⟨hown f (hg.has_mono hf), fun _ => hf⟩⟩
      refine ⟨1, ⟨fun _ => ⟨T₀, hL, hback⟩, hr.trans_zero hr₂, .refl _, ?_⟩, rfl, rfl,
        fun _ => ⟨rfl, hback⟩⟩
      exact fun _ hp => absurd (hp.symm.trans hop) (by simp)
    · simp only [ensures_rules, BEq.rfl, if_true, ensures_poison]
      exact .of_poisoned rfl rfl (hr.trans_zero hr₂) fun _ => le_rfl
    · have hpoison : MapFailed μ strict T₀ w
          ⟨{ w.core with state := .poisoned }, m₂, w.invalidator⟩ :=
        .of_poisoned (d := 2) rfl rfl (fun hs => absurd hs hns) fun _ => le_rfl
      by_cases hf : fault = .rollbackFailed <;> simp [hf, hpoison]
  · rintro e ⟨_, m₂, _⟩ ⟨rfl, rfl, d, hd, hr₂⟩
    obtain ⟨_, m₁, _⟩ := w₁
    obtain rfl := hinv
    simp only [ensures_rules, ensures_poison]
    rcases hcases with ⟨rfl, -, hr, -⟩ | ⟨rfl, -, hr⟩ | ⟨rfl, hns⟩
    · exact .of_poisoned rfl rfl (hr.trans hr₂) fun _ => by omega
    · exact .of_poisoned rfl rfl (hr.trans hr₂) fun _ => by omega
    · exact .of_poisoned (d := 2) rfl rfl (fun hs => absurd hs hns) fun _ => le_rfl

theorem Ledger.leaf_eq_zero (h : Ledger strict core T) (hiova : core.validateIova iova = .ok ())
    (hno : ∀ k r, core.At k r → r.iova ≠ iova) :
    T.leaf (pathOf core.levels iova) = 0 := by
  by_contra hne
  obtain ⟨k, r, hk, -, he⟩ := h.leaf _ hne
  have hr := h.record k r hk
  rw [hr.indices] at he
  exact hno k r hk (pathOf_inj h.levels.2 h.width hr.iova hiova he)

theorem ensures_publishLeaf {leaf : UInt64} (hL : Ledger strict w.core T₀)
    (hop : w.core.state = .operational)
    (hb : Built c w.core T₀ idx w.memory path links T) (hidx : idx.length = w.core.levels)
    (hfree : T₀.leaf idx = 0) :
    Ensures (publishLeaf path links leaf) w
      (fun _ w' => w'.core = w.core ∧ w'.invalidator = w.invalidator ∧
        μ.Ran strict 0 w.memory w'.memory ∧
        Stored c.toView w.core w'.memory (T.setLeaf idx leaf))
      (fun _ w' => MapFailed μ strict T₀ w w') := by
  have h2 := hL.levels.1
  obtain ⟨l, hl⟩ : ∃ l, w.core.levels = l + 1 := ⟨w.core.levels - 1, by omega⟩
  obtain ⟨table, htable⟩ : ∃ f, path.frames[l]? = some f :=
    ⟨_, getElem?_eq_getElem (by rw [hb.frames]; omega)⟩
  obtain ⟨i, hi⟩ : ∃ i, idx[l]? = some i := ⟨_, getElem?_eq_getElem (by omega)⟩
  have hnode := hb.along l table htable
  have hfull : idx.take l ++ [i] = idx := by
    rw [← take_succ_of_getElem? hi, take_of_length_le (by omega)]
  have hdepth : (idx.take l).length + 1 = (layout w.core.levels).levels := by
    rw [length_take, min_eq_left (by omega)]
    exact hl.symm
  have howned : c.owned w.memory table := (hb.stored.owned table).mpr ⟨_, hnode⟩
  have hread : c.entry w.memory table i = 0 := by
    rw [hb.stored.repr.last hnode hdepth i trivial, hfull, hb.grown.leaf, hfree]
  -- the leaf is free, so the only way to fail is a memory failure
  have hfailed : ∀ (e : SlptMemoryError) (m' : M), c.Same w.memory m' → μ.Ran strict 1 w.memory m' →
      Ensures (rollBack links) { w with memory := m' } (fun _ w' => MapFailed μ strict T₀ w w')
        (fun _ w' => MapFailed μ strict T₀ w w') := by
    intro e m' hs hr
    have hst := hb.stored.same hs
    have hf : BuildFailed μ strict w.core T₀ idx (.memory e) links w { w with memory := m' } :=
      ⟨T, hb.grown, hst.repr, fun f => (hst.owned f).mpr, rfl,
        .inl ⟨rfl, by simp, hr, fun f => (hst.owned f).mp⟩⟩
    simpa using hf.ensures_rollBack (Q := fun (_ : Unit) _ => False) hL hop
  simp only [publishLeaf, ensures_rules, hl, Nat.add_sub_cancel, getD_eq_getElem?_getD, htable,
    hb.indices, hi, Option.getD_some, ensures_onMemory]
  refine (μ.ensures_read strict i fun _ => howned).mono ?_ ?_
  · rintro existing m₁ ⟨⟨hs, he⟩, hr⟩
    obtain rfl : existing = 0 := (he howned).trans hread
    have howned₁ : c.owned m₁ table := (hs.owned table).mpr howned
    have hst := hb.stored.same hs
    simp only [bne_self_eq_false, if_false, ensures_rules, ensures_onMemory]
    refine (μ.ensures_write strict i leaf fun _ => howned₁).mono ?_ ?_
    · rintro ⟨⟩ m₂ ⟨hw, hr₂⟩
      exact ⟨hr.zero_trans hr₂, hfull ▸ hst.setLeaf hnode hdepth hw⟩
    · rintro e m₂ ⟨hs₂, hr₂⟩
      exact hfailed e m₂ (hs.trans hs₂) (hr.zero_trans hr₂)
  · rintro e m₁ ⟨hs, hr⟩
    exact hfailed e m₁ hs hr

end Publish

/-! ## The calls -/

variable {physicalAddress : UInt64}

theorem Core.checkOverlap_ok (h : core.checkOverlap iova physicalAddress = .ok ()) {k : Fin n}
    {r : MappingRecord} (hk : core.At k r) :
    r.iova ≠ iova ∧ r.physicalAddress ≠ physicalAddress := by
  have hmem := mem_finRange k
  rw [checkOverlap] at h
  generalize finRange n = l at h hmem
  induction l with
  | nil => cases hmem
  | cons j l ih =>
    rw [foldr_cons] at h
    rcases mem_cons.mp hmem with rfl | hmem
    · rw [hk] at h
      obtain ⟨hiova, h⟩ := ite_error_eq_ok.mp h
      obtain ⟨hphysical, -⟩ := ite_error_eq_ok.mp h
      exact ⟨by simpa using hiova, by simpa using hphysical⟩
    · split at h
      · exact ih h hmem
      · exact ih (ite_error_eq_ok.mp (ite_error_eq_ok.mp h).2).2 hmem

section Map

variable {μ : Monitor c I} {strict : Prop} {k : Fin n} {r : MappingRecord}
variable {permissions : DmaPermissions}

/-- A page enters the ledger. -/
theorem Ledger.map {m : M} {bits : UInt64} (h : Ledger strict core T₀)
    (hb : Built c core T₀ (pathOf core.levels iova) m path links T)
    (hk : (core.slots k).record = none) (hiova : core.validateIova iova = .ok ())
    (hphysical : validateMappedPhysicalAddress physicalAddress = .ok ())
    (hbits : permissions.bits = .ok bits) (hno : ∀ j s, core.At j s → s.iova ≠ iova) :
    Ledger strict (core.setRecord k
        ⟨iova, physicalAddress, physicalAddress ||| bits, path, 0, .awaitingMapInvalidation⟩)
      (T.setLeaf (pathOf core.levels iova) (physicalAddress ||| bits)) := by
  set r : MappingRecord :=
    ⟨iova, physicalAddress, physicalAddress ||| bits, path, 0, .awaitingMapInvalidation⟩ with hr
  have hlevels := h.levels.1
  have hroot : path.frames[0]? = some core.root := by
    obtain ⟨f, hf⟩ : ∃ f, path.frames[0]? = some f :=
      ⟨_, getElem?_eq_getElem (by rw [hb.frames]; omega)⟩
    have := hb.along 0 f hf
    rw [take_zero, hb.stored.repr.root] at this
    rw [hf, this]
  have hok : RecordOk core r := ⟨hb.depth, hb.indices, hb.frames, hroot,
    by show 0 + 1 ≤ _; omega, fun _ => rfl, hiova, hphysical, permissions, bits, hbits, rfl⟩
  have hret : r.retainedDepth = core.levels := hok.retainedDepth_of_live rfl
  have hother : ∀ {j s}, (core.setRecord k r).At j s → (j = k ∧ s = r) ∨ core.At j s := by
    intro j s hj
    exact (at_setRecord.mp hj).imp_right And.right
  have hkeep : ∀ {j s}, core.At j s → (core.setRecord k r).At j s := by
    intro j s hj
    refine at_setRecord.mpr (.inr ⟨?_, hj⟩)
    rintro rfl
    rw [Core.At, hk] at hj
    cases hj
  have hpath : ∀ j s, core.At j s → s.path.indices ≠ pathOf core.levels iova := by
    intro j s hj he
    have hs := h.record j s hj
    rw [hs.indices] at he
    exact hno j s hj (pathOf_inj h.levels.2 h.width hs.iova hiova he)
  refine ⟨h.levels, h.width, ?_, ?_, ?_, ?_, ?_, ?_⟩
  · intro j s hj
    rcases hother hj with ⟨-, rfl⟩ | hj
    · exact hok.congr sameShape_setRecord
    · exact (h.record j s hj).congr sameShape_setRecord
  · intro j s hj
    rcases hother hj with ⟨-, rfl⟩ | hj
    · refine ⟨core.levels, hret.ge, fun _ => hret.symm, fun p hp => ?_, fun p f hp hp' => ?_⟩
      · obtain ⟨f, hf⟩ := hok.exists_frame hp
        exact ⟨f, hf, by rw [hok.indices]; exact hb.along p f hf⟩
      · omega
    · -- a frame that was lost is still known, so it is none of the new tables
      obtain ⟨cut, hle, heq, hon, hlost⟩ := h.held j s hj
      refine ⟨cut, hle, heq, fun p hp => ?_, fun p f hp hp' hf => ?_⟩
      · obtain ⟨f, hf, hnode⟩ := hon p hp
        exact ⟨f, hf, hb.grown.node_mono hnode⟩
      · rintro ⟨q, hq⟩
        rcases hb.grown.node_cases hq with hq | ⟨-, hunknown⟩
        · exact hlost p f hp hp' hf ⟨q, hq⟩
        · rw [frameIsKnown_of_at hj hp' hf] at hunknown
          cases hunknown
  · intro i j s t hi hj he
    rcases hother hi with ⟨hik, rfl⟩ | hi' <;> rcases hother hj with ⟨hjk, rfl⟩ | hj'
    · rw [hik, hjk]
    · exact absurd he.symm (hno _ _ hj')
    · exact absurd he (hno _ _ hi')
    · exact h.iova_inj i j s t hi' hj' he
  · intro j s hj hlive
    rcases hother hj with ⟨-, rfl⟩ | hj
    · rw [hok.indices]
      exact update_self ..
    · rw [Tree.setLeaf_leaf, update_of_ne (hpath j s hj), hb.grown.leaf]
      exact h.mapped j s hj hlive
  · intro q hq
    by_cases he : q = pathOf core.levels iova
    · exact ⟨k, r, at_setRecord_self, rfl, hok.indices.trans he.symm⟩
    · rw [Tree.setLeaf_leaf, update_of_ne he, hb.grown.leaf] at hq
      obtain ⟨j, s, hj, hlive, hs⟩ := h.leaf q hq
      exact ⟨j, s, hkeep hj, hlive, hs⟩
  · -- the new tables are on the path of the new record
    intro hs q f hq
    rcases hb.grown.node_cases hq with hq | ⟨⟨p, rfl⟩, -⟩
    · exact frameIsKnown_mono (h.known hs q f hq) rfl
        fun j s p hj hp hf => frameIsKnown_of_at (hkeep hj) hp hf
    · have hlen := hb.stored.repr.depth hq
      have hp : p < core.levels := by
        rw [length_take, length_pathOf] at hlen
        change min p core.levels < core.levels at hlen
        omega
      obtain ⟨g, hg⟩ := hok.exists_frame hp
      obtain rfl : f = g := Option.some.inj (hq.symm.trans (hb.along p g hg))
      exact frameIsKnown_of_at at_setRecord_self (hret ▸ hp) hg

/-- The outcome of a map whose record is `r`. -/
def MapAnswered (μ : Monitor c I) (strict : Prop) (w w' : World n M I) (handle : MappingHandle)
    (r : MappingRecord) : MapOutcome → Prop
  | .active h => h = handle ∧ r.phase = .active ∧ Step μ strict 0 0 w w'
  | .pending receipt _ => receipt = ⟨handle⟩ ∧ r.phase = .awaitingMapInvalidation ∧
      Step μ strict 0 1 w w'

variable {handle : MappingHandle}

theorem MapAnswered.after {s : MappingRecord} {outcome : MapOutcome}
    (h : MapAnswered μ strict w₁ w' handle r outcome) (hcore : w₁.core = w.core.setRecord k s)
    (hmissed : μ.Missed 0 w.invalidator w₁.invalidator) (hr : μ.Ran strict 0 w.memory w₁.memory) :
    MapAnswered μ strict w w' handle r outcome := by
  cases outcome with
  | active _ | pending _ _ => exact ⟨h.1, h.2.1, h.2.2.after hcore hmissed hr⟩

theorem ensures_completeMap {T : TableTree} (hL : Ledger strict w.core T)
    (hst : Stored c.toView w.core w.memory T) (hk : w.core.At k r)
    (hphase : r.phase = .awaitingMapInvalidation) (hop : w.core.state = .operational) :
    Ensures (completeMap k r handle) w
      (fun outcome w' => ∃ s, w'.core = w.core.setRecord k s ∧ s.iova = r.iova ∧
        MapAnswered μ strict w w' handle s outcome)
      (fun _ _ => False) := by
  have hlive : { r with phase := .active }.isLive = r.isLive := by
    simp [MappingRecord.isLive, hphase]
  have hpoisoned : w.core.state ≠ .poisoned := by simp [hop]
  rw [completeMap, ensures_bind, ensures_onInvalidator]
  refine (μ.ensures_invalidate r.iova w.invalidator).mono ?_ ?_
  · intro _ i hmissed
    exact ⟨_, rfl, rfl, rfl, rfl, fun _ => ⟨T, hL.setPhase hk hlive,
      hst.congr sameShape_setRecord⟩, .refl _, hmissed, fun _ hp => absurd hp hpoisoned⟩
  · intro e i hmissed
    exact ⟨r, (setRecord_self hk).symm, rfl, rfl, hphase, fun _ => ⟨T, hL, hst⟩, .refl _,
      hmissed, fun _ hp => absurd hp hpoisoned⟩

/-- **`map_page` keeps the ledger and the tables in agreement**, whatever fails. -/
theorem ensures_mapPage (hw : Sound c strict w) :
    Ensures (mapPage iova physicalAddress permissions) w
      (fun outcome w' => w.core.state = .operational ∧ ∃ k r, (w.core.slots k).record = none ∧
        w'.core = w.core.setRecord k r ∧ r.iova = iova ∧
        MapAnswered μ strict w w' ⟨k.val.toUInt16, (w.core.slots k).generation⟩ r outcome)
      (fun _ w' => ∃ T₀, (w.core.state = .operational → Stored c.toView w.core w.memory T₀) ∧
        MapFailed μ strict T₀ w w') := by
  obtain ⟨T₀, hw₀⟩ : ∃ T₀, w.core.state = .operational →
      Ledger strict w.core T₀ ∧ Stored c.toView w.core w.memory T₀ := by
    by_cases hop : w.core.state = .operational
    · exact (hw hop).imp fun _ h _ => h
    · exact ⟨.bare w.core.root, fun h => absurd h hop⟩
  have hbefore := fun hop => (hw₀ hop).2
  have hsame : MapFailed μ strict T₀ w w :=
    ⟨0, ⟨hw, .refl _, .refl _, fun _ => .inl⟩, rfl, rfl, fun hop => ⟨rfl, hbefore hop⟩⟩
  refine Ensures.mono (E := fun _ w' => MapFailed μ strict T₀ w w') ?_ (fun _ _ h => h)
    fun _ _ h => ⟨T₀, hbefore, h⟩
  simp only [mapPage, ensureOperational, ensures_rules, hsame, bne_eq_false_iff_eq]
  rintro hop ⟨⟩ hiova ⟨⟩ hphysical bits hbits ⟨⟩ hoverlap k hfind
  obtain ⟨hL, hst⟩ := hw₀ hop
  have hk : (w.core.slots k).record = none := by
    have := find?_some hfind
    simpa using (Bool.and_eq_true_iff.mp this).1
  have hno : ∀ j s, w.core.At j s → s.iova ≠ iova := fun j s hj =>
    (checkOverlap_ok hoverlap hj).1
  have hlevels := hL.levels.1
  obtain ⟨l, hl⟩ : ∃ l, w.core.levels = l + 1 := ⟨w.core.levels - 1, by omega⟩
  have hstart : Building c w.core T₀ (pathOf w.core.levels iova) w.memory
      ⟨[w.core.root], [], w.core.levels⟩ [] T₀ := by
    refine ⟨hst, .nil, rfl, by simp, rfl, ?_, fun q f _ h => h⟩
    intro q f hq
    rw [getElem?_singleton] at hq
    split at hq
    · next hzero =>
      rw [hzero, take_zero, hst.repr.root, hq]
    · cases hq
  have hbuild := hstart.ensures_buildPath (μ := μ)
    (E := fun (_ : SlptFault) w' => MapFailed μ strict T₀ w w') hL l rfl (by simp [hl])
  rw [← hl] at hbuild
  refine hbuild.imp_ok ?_
  rintro ⟨(fault | path), links⟩ ⟨_, m₁, _⟩ hres
  · exact BuildFailed.ensures_rollBack hres hL hop
  · obtain ⟨rfl, rfl, hr, T, hb⟩ := hres
    simp only [ensures_bind, ensures_modifyCore]
    refine (ensures_publishLeaf (μ := μ) (w := { w with memory := m₁ }) hL hop hb (length_pathOf ..)
      (hL.leaf_eq_zero hiova hno)).mono ?_ fun _ w' h => h.after rfl rfl hr
    rintro ⟨⟩ ⟨_, m₂, _⟩ ⟨rfl, rfl, hr₂, hst₂⟩
    refine (ensures_completeMap (μ := μ) (w := ⟨w.core.setRecord k _, m₂, w.invalidator⟩)
      (hL.map hb hk hiova hphysical hbits hno) (hst₂.congr sameShape_setRecord) at_setRecord_self
      rfl hop).mono ?_ fun _ _ h => h.elim
    rintro outcome w₃ ⟨s, hcore₃, hs, hans⟩
    refine ⟨hop, k, s, hk, ?_, hs, hans.after rfl (.refl _) (hr.zero_trans hr₂)⟩
    rw [hcore₃, setRecord_setRecord]

end Map

end Sisyphus.Slpt
