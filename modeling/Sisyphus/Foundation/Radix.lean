import Mathlib.Data.UInt
import Mathlib.Tactic

/-!
# Radix tables in memory

A radix table keeps a finite map from index paths of a fixed length in equally shaped tables: an
entry of an inner table is empty or links to the table below, an entry of a last-level table is
what the path maps to.  Page tables of all kinds are of this form.

`Tree` is the abstract content: which frame holds the table at a path, and what the paths of full
length map to.  `Represents` says that the entries in memory spell out a tree, with no frame used
twice.  The lemmas `Represents.attach`, `detach` and `setLeaf` are the three ways in which
changing one entry changes the tree; `Represents.congr` says that entries of frames outside the
tree do not matter.

Only paths in the layout's `scope` are described, so that a table may be shared with something
else (the kernel's half of an address space, for example).
-/

set_option autoImplicit false

namespace Sisyphus.Radix

open Function List Option

variable {F ι E : Type} {q : List ι}

/-- What the tables of one kind have in common. -/
structure Layout (F ι E : Type) [Zero E] where
  /-- The number of indices of a full path. -/
  levels : Nat
  /-- The entry that links to a table. -/
  link : F → E
  link_ne_zero : ∀ f, link f ≠ 0
  /-- The paths that are described. -/
  scope : List ι → Prop
  scope_append : ∀ path i, path ≠ [] → scope path → scope (path ++ [i])

/-- Which frame holds the table at a path, and what full paths map to. -/
structure Tree (F ι E : Type) where
  node : List ι → Option F
  leaf : List ι → E

namespace Tree

variable [DecidableEq ι]

/-- The frame holds one of the tables. -/
def Has (T : Tree F ι E) (f : F) : Prop := ∃ path, T.node path = some f

/-- The entry for `i` of the table at a path is in use. -/
def Busy [Zero E] (T : Tree F ι E) (path : List ι) (i : ι) : Prop :=
  T.node (path ++ [i]) ≠ none ∨ T.leaf (path ++ [i]) ≠ 0

/-- A root with nothing in it. -/
def bare [Zero E] (root : F) : Tree F ι E where
  node path := if path = [] then some root else none
  leaf _ := 0

/-- A new table at a path. -/
def attach (T : Tree F ι E) (path : List ι) (f : F) : Tree F ι E :=
  { T with node := update T.node path (some f) }

/-- The table at a path is taken out. -/
def detach (T : Tree F ι E) (path : List ι) : Tree F ι E :=
  { T with node := update T.node path none }

/-- A full path is mapped anew. -/
def setLeaf (T : Tree F ι E) (path : List ι) (e : E) : Tree F ι E :=
  { T with leaf := update T.leaf path e }

variable (T : Tree F ι E) (path : List ι) (f : F) (e : E)

@[simp] theorem attach_node_self : (T.attach path f).node path = some f := by simp [attach]

theorem attach_node_of_ne (h : q ≠ path) :
    (T.attach path f).node q = T.node q := by simp [attach, h]

@[simp] theorem attach_leaf : (T.attach path f).leaf = T.leaf := rfl

theorem detach_node_of_ne (h : q ≠ path) : (T.detach path).node q = T.node q := by
  simp [detach, h]

@[simp] theorem detach_leaf : (T.detach path).leaf = T.leaf := rfl

@[simp] theorem setLeaf_leaf : (T.setLeaf path e).leaf = update T.leaf path e := rfl

section

variable {T path f} {k : F}

theorem attach_node_eq_some : (T.attach path f).node q = some k ↔
    q = path ∧ f = k ∨ q ≠ path ∧ T.node q = some k := by
  by_cases h : q = path <;> simp [attach, h]

theorem attach_node_of_some (hn : T.node path = none) (hq : T.node q = some k) :
    (T.attach path f).node q = some k :=
  attach_node_eq_some.mpr (.inr ⟨by rintro rfl; simp [hn] at hq, hq⟩)

theorem detach_node_eq_some :
    (T.detach path).node q = some k ↔ q ≠ path ∧ T.node q = some k := by
  by_cases h : q = path <;> simp [detach, h]

end

theorem has_attach (h : T.node path = none) {g : F} :
    (T.attach path f).Has g ↔ T.Has g ∨ g = f := by
  constructor
  · rintro ⟨q, hq⟩
    obtain ⟨-, rfl⟩ | ⟨-, hq⟩ := attach_node_eq_some.mp hq
    · exact .inr rfl
    · exact .inl ⟨q, hq⟩
  · rintro (⟨q, hq⟩ | rfl)
    · exact ⟨q, attach_node_of_some h hq⟩
    · exact ⟨path, T.attach_node_self _ _⟩

theorem Has.of_detach {T : Tree F ι E} {path : List ι} {g : F} (h : (T.detach path).Has g) :
    T.Has g := by
  obtain ⟨q, hq⟩ := h
  exact ⟨q, (detach_node_eq_some.mp hq).2⟩

/-- Putting a table in and taking it out again changes nothing. -/
theorem detach_attach (h : T.node path = none) : (T.attach path f).detach path = T := by
  cases T
  simp only [attach, detach, update_idem, mk.injEq, and_true]
  exact Function.update_eq_self_iff.mpr h.symm

end Tree

/-- The entries `entry f i` of the tables spell out the tree `T` below `root`. -/
structure Represents [Zero E] (L : Layout F ι E) (root : F) (entry : F → ι → E)
    (T : Tree F ι E) : Prop where
  root : T.node [] = some root
  depth : ∀ {path f}, T.node path = some f → path.length < L.levels
  /-- No frame is used twice. -/
  inj : ∀ {path q f}, T.node path = some f → T.node q = some f → path = q
  /-- Every table hangs from another one. -/
  parent : ∀ {path i f}, T.node (path ++ [i]) = some f → ∃ g, T.node path = some g
  inner : ∀ {path f}, T.node path = some f → path.length + 1 < L.levels →
    ∀ i, L.scope (path ++ [i]) → entry f i = (T.node (path ++ [i])).elim 0 L.link
  last : ∀ {path f}, T.node path = some f → path.length + 1 = L.levels →
    ∀ i, L.scope (path ++ [i]) → entry f i = T.leaf (path ++ [i])
  /-- Only full paths through the tables map to something. -/
  support : ∀ {path}, T.leaf path ≠ 0 → L.scope path ∧
    ∃ q i f, path = q ++ [i] ∧ T.node q = some f ∧ q.length + 1 = L.levels

namespace Represents

variable [Zero E] {L : Layout F ι E} {root : F} {entry entry' : F → ι → E} {T : Tree F ι E}
  {path : List ι} {i : ι} {f g : F}

section

variable (h : Represents L root entry T)
include h

/-- Only the entries of the tree's own tables matter. -/
theorem congr (he : ∀ f i, T.Has f → entry' f i = entry f i) : Represents L root entry' T where
  root := h.root
  depth := h.depth
  inj := h.inj
  parent := h.parent
  inner hp hl i hi := (he _ i ⟨_, hp⟩).trans (h.inner hp hl i hi)
  last hp hl i hi := (he _ i ⟨_, hp⟩).trans (h.last hp hl i hi)
  support := h.support

theorem not_node_of_parent_none (hn : T.node path = none) (i : ι) :
    T.node (path ++ [i]) = none := by
  rw [eq_none_iff_forall_ne_some]
  intro f hf
  obtain ⟨g, hg⟩ := h.parent hf
  rw [hn] at hg
  cases hg

theorem leaf_eq_zero_of_none (hn : T.node path = none) (i : ι) : T.leaf (path ++ [i]) = 0 := by
  by_contra hne
  obtain ⟨-, q, j, f, he, hf, -⟩ := h.support hne
  rw [(append_inj' he rfl).1, hf] at hn
  cases hn

/-- A table with no entries has no tables below it. -/
theorem node_eq_none_of_empty (hf : T.node path = some f)
    (hscope : L.scope path) (hne : path ≠ []) (hempty : ∀ i, entry f i = 0) (i : ι) :
    T.node (path ++ [i]) = none := by
  by_contra hsome
  obtain ⟨g, hg⟩ := ne_none_iff_exists'.mp hsome
  have hdepth := h.depth hg
  rw [length_append, length_singleton] at hdepth
  have := h.inner hf hdepth i (L.scope_append _ i hne hscope)
  rw [hempty i, hg] at this
  exact L.link_ne_zero g this.symm

/-- A table with no entries maps nothing. -/
theorem leaf_eq_zero_of_empty (hf : T.node path = some f)
    (hempty : ∀ i, entry f i = 0) (i : ι) : T.leaf (path ++ [i]) = 0 := by
  by_contra hne
  obtain ⟨hscope, q, j, g, he, hg, hl⟩ := h.support hne
  obtain ⟨rfl, hij⟩ := append_inj' he rfl
  exact hne ((h.last hf hl i hscope).symm.trans (hempty i))

theorem entry_ne_zero_iff (hf : T.node path = some f)
    (hscope : L.scope (path ++ [i])) : entry f i ≠ 0 ↔ T.Busy path i := by
  have hdepth := h.depth hf
  by_cases hl : path.length + 1 < L.levels
  · have hleaf : T.leaf (path ++ [i]) = 0 := by
      by_contra hne
      obtain ⟨-, q, j, g, he, -, hq⟩ := h.support hne
      rw [(append_inj' he rfl).1] at hl
      omega
    rw [h.inner hf hl i hscope, Tree.Busy, hleaf]
    cases T.node (path ++ [i]) with
    | none => simp
    | some g => simp [L.link_ne_zero]
  · have hnode : T.node (path ++ [i]) = none := by
      by_contra hne
      obtain ⟨g, hg⟩ := ne_none_iff_exists'.mp hne
      have := h.depth hg
      rw [length_append, length_singleton] at this
      omega
    rw [h.last hf (by omega) i hscope, Tree.Busy, hnode]
    simp

end

/-- A root whose entries are empty. -/
theorem bare (hl : 0 < L.levels) (h : ∀ i, L.scope [i] → entry root i = 0) :
    Represents L root entry (Tree.bare root) := by
  have hnode : ∀ {path f}, (Tree.bare root : Tree F ι E).node path = some f →
      path = [] ∧ f = root := by
    intro path f hf
    simp only [Tree.bare] at hf
    split at hf
    · next hp => exact ⟨hp, (some.inj hf).symm⟩
    · cases hf
  refine ⟨rfl, fun hf => ?_, fun hf hg => ?_, fun hf => ?_, fun hf hlen i hi => ?_,
    fun hf hlen i hi => ?_, fun hne => absurd rfl hne⟩
  · rw [(hnode hf).1]
    exact hl
  · rw [(hnode hf).1, (hnode hg).1]
  · simpa using (hnode hf).1
  · obtain ⟨rfl, rfl⟩ := hnode hf
    exact h i hi
  · obtain ⟨rfl, rfl⟩ := hnode hf
    exact h i hi

theorem append_ne_of_length {j : ι} (hne : q.length ≠ path.length) : q ++ [j] ≠ path ++ [i] :=
  fun heq => hne (congrArg length (append_inj' heq rfl).1)

variable [DecidableEq ι] (h : Represents L root entry T) (hf : T.node path = some f)
  (hsame : ∀ k j, T.Has k → ¬(k = f ∧ j = i) → entry' k j = entry k j)
include h hf hsame

/-- What has been written at one entry is there, at its path and at no other. -/
theorem entry_eq_ite {k : F} (hq : T.node q = some k) (j : ι) :
    entry' k j = if q ++ [j] = path ++ [i] then entry' f i else entry k j := by
  split
  · next heq =>
    obtain ⟨rfl, hji⟩ := append_inj' heq rfl
    rw [some.inj (hq.symm.trans hf), singleton_inj.mp hji]
  · next hne =>
    refine hsame k j ⟨q, hq⟩ ?_
    rintro ⟨rfl, rfl⟩
    exact hne (h.inj hq hf ▸ rfl)

/-- Linking an empty table from an empty entry. -/
theorem attach (hl : path.length + 1 < L.levels) (hn : T.node (path ++ [i]) = none)
    (hg : ¬T.Has g) (hempty : ∀ j, entry' g j = 0) (hset : entry' f i = L.link g) :
    Represents L root entry' (T.attach (path ++ [i]) g) where
  root := Tree.attach_node_of_some hn h.root
  depth := by
    intro q k hq
    obtain ⟨rfl, -⟩ | ⟨-, hq⟩ := Tree.attach_node_eq_some.mp hq
    · rw [length_append, length_singleton]
      exact hl
    · exact h.depth hq
  inj := by
    intro q r k hq hr
    obtain ⟨rfl, rfl⟩ | ⟨-, hq⟩ := Tree.attach_node_eq_some.mp hq <;>
      obtain ⟨rfl, hk⟩ | ⟨-, hr⟩ := Tree.attach_node_eq_some.mp hr
    · rfl
    · exact absurd ⟨r, hr⟩ hg
    · exact absurd ⟨q, hk ▸ hq⟩ hg
    · exact h.inj hq hr
  parent := by
    intro q j k hq
    obtain ⟨he, -⟩ | ⟨-, hq⟩ := Tree.attach_node_eq_some.mp hq
    · obtain ⟨rfl, -⟩ := append_inj' he rfl
      exact ⟨f, Tree.attach_node_of_some hn hf⟩
    · exact (h.parent hq).imp fun _ => Tree.attach_node_of_some hn
  inner := by
    intro q k hq hlen j hj
    rw [Tree.attach_node_eq_some] at hq
    obtain ⟨rfl, rfl⟩ | ⟨-, hq⟩ := hq
    · rw [T.attach_node_of_ne _ _ (by simp), h.not_node_of_parent_none hn]
      exact hempty j
    · rw [h.entry_eq_ite hf hsame hq, hset, h.inner hq hlen j hj]
      simp only [Tree.attach, update_apply]
      split <;> rfl
  last := by
    intro q k hq hlen j hj
    rw [T.attach_leaf]
    obtain ⟨rfl, rfl⟩ | ⟨-, hq⟩ := Tree.attach_node_eq_some.mp hq
    · rw [h.leaf_eq_zero_of_none hn]
      exact hempty j
    · rw [h.entry_eq_ite hf hsame hq, if_neg (append_ne_of_length (by omega))]
      exact h.last hq hlen j hj
  support := by
    intro p hp
    obtain ⟨hscope, q, j, k, rfl, hk, hlen⟩ := h.support hp
    exact ⟨hscope, q, j, k, rfl, Tree.attach_node_of_some hn hk, hlen⟩

/-- Clearing the entry that links an empty table. -/
theorem detach (hg : T.node (path ++ [i]) = some g) (hscope : L.scope (path ++ [i]))
    (hempty : ∀ j, entry g j = 0) (hset : entry' f i = 0) :
    Represents L root entry' (T.detach (path ++ [i])) where
  root := by
    rw [T.detach_node_of_ne _ (by simp)]
    exact h.root
  depth hq := h.depth (Tree.detach_node_eq_some.mp hq).2
  inj hq hr := h.inj (Tree.detach_node_eq_some.mp hq).2 (Tree.detach_node_eq_some.mp hr).2
  parent := by
    intro q j k hq
    replace hq := (Tree.detach_node_eq_some.mp hq).2
    obtain ⟨k', hk'⟩ := h.parent hq
    -- nothing hangs from the table that is taken out
    have hne : q ≠ path ++ [i] := by
      rintro rfl
      rw [h.node_eq_none_of_empty hg hscope (by simp) hempty] at hq
      cases hq
    exact ⟨k', by rw [T.detach_node_of_ne _ hne]; exact hk'⟩
  inner := by
    intro q k hq hlen j hj
    replace hq := (Tree.detach_node_eq_some.mp hq).2
    rw [h.entry_eq_ite hf hsame hq, hset, h.inner hq hlen j hj]
    simp only [Tree.detach, update_apply]
    split <;> rfl
  last := by
    intro q k hq hlen j hj
    replace hq := (Tree.detach_node_eq_some.mp hq).2
    have hdepth := h.depth hg
    rw [length_append, length_singleton] at hdepth
    rw [h.entry_eq_ite hf hsame hq, if_neg (append_ne_of_length (by omega)), T.detach_leaf]
    exact h.last hq hlen j hj
  support := by
    intro p hp
    obtain ⟨hs, q, j, k, rfl, hk, hlen⟩ := h.support hp
    have hne : q ≠ path ++ [i] := by
      rintro rfl
      exact hp (h.leaf_eq_zero_of_empty hg hempty j)
    exact ⟨hs, q, j, k, rfl, by rw [T.detach_node_of_ne _ hne]; exact hk, hlen⟩

/-- Writing an entry of a last-level table. -/
theorem setLeaf (hl : path.length + 1 = L.levels) (hscope : L.scope (path ++ [i])) {e : E}
    (hset : entry' f i = e) :
    Represents L root entry' (T.setLeaf (path ++ [i]) e) where
  root := h.root
  depth := h.depth
  inj := h.inj
  parent := h.parent
  inner := by
    intro q k hq hlen j hj
    rw [h.entry_eq_ite hf hsame hq, if_neg (append_ne_of_length (by omega))]
    exact h.inner hq hlen j hj
  last := by
    intro q k hq hlen j hj
    rw [h.entry_eq_ite hf hsame hq, hset, h.last hq hlen j hj, T.setLeaf_leaf, update_apply]
  support := by
    intro p hp
    by_cases he : p = path ++ [i]
    · subst he
      exact ⟨hscope, path, i, f, rfl, hf, hl⟩
    · rw [T.setLeaf_leaf, update_of_ne he] at hp
      exact h.support hp

end Represents

end Sisyphus.Radix
