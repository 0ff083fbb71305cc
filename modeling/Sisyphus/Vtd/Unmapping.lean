import Sisyphus.Vtd.Ledger

/-!
# Unmapping a page

An unmap clears the leaf, waits for the invalidation and then gives the tables back that are
empty, from the leaf table upwards: clear the link, invalidate, release.  When the invalidation
or the release fails, the link is put back and the call ends with a receipt to retry with.

Two pages on their way out may share a table.  Whoever comes last finds it empty and gives it
back, while the other record still has it in its path.  `Spared` is the condition under which that
does not happen: every table that the call could give back while another such record has it in its
path stays in use.
-/

set_option autoImplicit false

namespace Sisyphus.Slpt

open Slpt.Core Fallible Function List Radix SlptInvalidator SlptPageMemory Words

variable {n : Nat} {M I : Type} [SlptPageMemory M] [SlptInvalidator I] {c : Contract M}
  {strict : Prop} {core : Core n} {T T' : TableTree} {k : Fin n} {r : MappingRecord}
  {w w₁ w' : World n M I}

/-! ## Giving a table back -/

section GiveBack

variable {p : Nat} {child : SlptFrame}

/-- Where the record `r` and another one that is on its way out have a table in common, one of the
tables from there down to the leaf has an entry in use that is not the page's own.  The own entry
of a table counts as free, except in the lowest one once tables have been given back: then what
was there is gone, and what is there now is another page's. -/
def Spared (core : Core n) (T : TableTree) (k : Fin n) (r : MappingRecord) : Prop :=
  ∀ j s p, j ≠ k → core.At j s → s.isLive = false → 1 ≤ p → p < r.retainedDepth →
    p < s.retainedDepth → r.path.frames[p]? = s.path.frames[p]? →
    ∃ t i, p ≤ t ∧ t < r.retainedDepth ∧ T.Busy (r.path.indices.take t) i ∧
      (r.path.indices[t]? ≠ some i ∨ t + 1 = r.retainedDepth ∧ r.cleanupDepth ≠ 0)

/-- The record when one more of its tables is gone. -/
abbrev MappingRecord.cleaned (r : MappingRecord) : MappingRecord :=
  { r with cleanupDepth := r.cleanupDepth + 1 }

theorem RecordOk.cleanup_succ (h : RecordOk core r) (hlive : r.isLive = false)
    (hret : r.retainedDepth = p + 2) :
    RecordOk core r.cleaned where
  depth := h.depth
  indices := h.indices
  frames := h.frames
  root := h.root
  cleanup := by
    rw [MappingRecord.retainedDepth, h.depth] at hret
    show r.cleanupDepth + 1 + 1 ≤ _
    omega
  live hl := absurd hl (Bool.eq_false_iff.mp hlive)
  iova := h.iova
  physical := h.physical
  leaf := h.leaf

theorem retainedDepth_cleanup_succ (hret : r.retainedDepth = p + 2) :
    r.cleaned.retainedDepth = p + 1 := by
  rw [MappingRecord.retainedDepth] at hret ⊢
  dsimp only
  omega

/-- One more table of a record on its way out is gone. -/
theorem Ledger.cleanup_succ (h : Ledger strict core T) (hk : core.At k r)
    (hlive : r.isLive = false) (hret : r.retainedDepth = p + 2) (hleaf : T'.leaf = T.leaf)
    (hheld : Held strict T' r.cleaned)
    (hother : ∀ j s, j ≠ k → core.At j s → Held strict T' s)
    (hknown : strict → ∀ path f, T'.node path = some f →
      (core.setRecord k r.cleaned).frameIsKnown f = true) :
    Ledger strict (core.setRecord k r.cleaned) T' := by
  have hdead : ∀ {j s}, core.At j s → s.isLive = true → j ≠ k := by
    rintro j s hj hl rfl
    rw [hj.inj hk, hlive] at hl
    cases hl
  refine h.replace hk rfl ((h.record k r hk).cleanup_succ hlive hret) hheld hother ?_ ?_ hknown
  · intro j s hj hl
    rw [hleaf]
    rcases at_setRecord.mp hj with ⟨-, rfl⟩ | ⟨-, hj⟩
    · exact absurd hl (Bool.eq_false_iff.mp hlive)
    · exact h.mapped j s hj hl
  · intro path hpath
    rw [hleaf] at hpath
    obtain ⟨j, s, hj, hl, he⟩ := h.leaf path hpath
    exact ⟨j, s, at_setRecord.mpr (.inr ⟨hdead hj hl, hj⟩), hl, he⟩

/-- A strict ledger has lost none of the tables that it retains. -/
theorem Ledger.not_strict (h : Ledger strict core T) (hk : core.At k r) (hp : p < r.retainedDepth)
    (hchild : r.path.frames[p]? = some child) (hlost : ¬T.Has child) : ¬strict :=
  fun hs => hlost ⟨_, ((h.held k r hk).onTree (.inl hs)).node_eq hp hchild⟩

/-- The table was lost before. -/
theorem Ledger.cleanup_lost (h : Ledger strict core T) (hk : core.At k r)
    (hlive : r.isLive = false) (hret : r.retainedDepth = p + 2)
    (hchild : r.path.frames[p + 1]? = some child) (hlost : ¬T.Has child) :
    Ledger strict (core.setRecord k r.cleaned) T := by
  have hns := h.not_strict hk (by omega) hchild hlost
  have hret' := retainedDepth_cleanup_succ hret
  refine h.cleanup_succ hk hlive hret rfl ?_ (fun j s _ hj => h.held j s hj)
    fun hs => absurd hs hns
  obtain ⟨cut, -, -, hon, hgone⟩ := h.held k r hk
  have hcut : cut ≤ p + 1 := by
    by_contra hcut
    exact hlost ⟨_, hon.node_eq (by omega) hchild⟩
  refine ⟨cut, hret' ▸ hcut, ?_, hon, fun q f hq hq' hf => hgone q f hq ?_ hf⟩
  · rintro (hs | hl)
    · exact absurd hs hns
    · exact absurd hl (Bool.eq_false_iff.mp hlive)
  · omega

section Detach

variable {entry : SlptFrame → TableIndex → UInt64} {path : List TableIndex}
  (hrepr : Represents (layout core.levels) core.root entry T)
include hrepr

theorem not_has_detach (hnode : T.node path = some child) : ¬(T.detach path).Has child := by
  rintro ⟨q, hq⟩
  obtain ⟨hne, hq⟩ := Tree.detach_node_eq_some.mp hq
  exact hne (hrepr.inj hq hnode)

/-- Another record after the table at `path` is gone: it may have lost that one, but nothing above
it. -/
theorem Held.detach {s : MappingRecord} (h : Ledger strict core T)
    {j : Fin n} (hj : core.At j s) (hlen : path.length = p + 1) (hp : p + 2 ≤ core.levels)
    (hnode : T.node path = some child) (hempty : ∀ i, ¬T.Busy path i)
    (hspare : strict → s.isLive = false → p + 1 < s.retainedDepth →
      s.path.frames[p + 1]? ≠ some child) :
    Held strict (T.detach path) s := by
  have hs := h.record j s hj
  obtain ⟨cut, hle, heq, hon, hgone⟩ := h.held j s hj
  have hretle := hs.retainedDepth_le
  have hne : ∀ q, q ≤ core.levels → q ≠ p + 1 → s.path.indices.take q ≠ path := by
    rintro q hq hqp rfl
    exact hqp (by rw [← hlen, hs.length_take hq])
  by_cases hshared : p + 1 < cut ∧ s.path.indices.take (p + 1) = path
  · obtain ⟨hcut, hpath⟩ := hshared
    obtain ⟨f, hf, hfnode⟩ := hon (p + 1) hcut
    rw [hpath, hnode] at hfnode
    cases hfnode
    -- the table is empty, so nothing of the record is below it
    have hbusy : ∀ i, s.path.indices[p + 1]? = some i → s.path.indices.take (p + 2) = path ++ [i] :=
      fun i hi => by rw [take_succ_of_getElem? hi, hpath]
    obtain ⟨i, hi⟩ := hs.exists_index (p := p + 1) (by omega)
    have hcut' : cut = p + 2 := by
      by_contra hcut'
      obtain ⟨g, -, hg⟩ := hon (p + 2) (by omega)
      rw [hbusy i hi] at hg
      exact hempty i (.inl (by rw [hg]; exact Option.some_ne_none g))
    have hdead : s.isLive = false := by
      rw [Bool.eq_false_iff]
      intro hl
      have hfull := hs.retainedDepth_of_live hl
      have hret := heq (.inr hl)
      have hall : s.path.indices = path ++ [i] := by
        rw [← hbusy i hi, take_of_length_le (by rw [hs.length_indices]; omega)]
      refine hempty i (.inr ?_)
      rw [← hall, h.mapped j s hj hl]
      exact hs.leaf_ne_zero
    refine ⟨p + 1, by omega, ?_, fun q hq => ?_, fun q g hq hq' hg => ?_⟩
    · rintro (hstrict | hl)
      · exact absurd hf (hspare hstrict hdead (by omega))
      · rw [hdead] at hl
        cases hl
    · obtain ⟨g, hg, hgnode⟩ := hon q (by omega)
      exact ⟨g, hg, by rw [T.detach_node_of_ne _ (hne q (by omega) (by omega))]; exact hgnode⟩
    · by_cases hqp : q = p + 1
      · subst hqp
        rw [hf] at hg
        cases hg
        exact not_has_detach hrepr hnode
      · exact fun hhas => hgone q g (by omega) hq' hg hhas.of_detach
  · refine ⟨cut, hle, heq, fun q hq => ?_, fun q g hq hq' hg hhas =>
      hgone q g hq hq' hg hhas.of_detach⟩
    obtain ⟨g, hg, hgnode⟩ := hon q hq
    have hqne : s.path.indices.take q ≠ path := by
      by_cases hqp : q = p + 1
      · subst hqp
        exact fun he => hshared ⟨hq, he⟩
      · exact hne q (by omega) hqp
    exact ⟨g, hg, by rw [T.detach_node_of_ne _ hqne]; exact hgnode⟩

/-- **An empty table goes**, and with it what other records on their way out retain of it. -/
theorem Ledger.cleanup_detach (h : Ledger strict core T) (hk : core.At k r)
    (hlive : r.isLive = false) (hret : r.retainedDepth = p + 2)
    (hchild : r.path.frames[p + 1]? = some child)
    (hnode : T.node (r.path.indices.take (p + 1)) = some child)
    (hempty : ∀ i, ¬T.Busy (r.path.indices.take (p + 1)) i)
    (hspare : strict → Spared core T k r) :
    Ledger strict (core.setRecord k r.cleaned)
      (T.detach (r.path.indices.take (p + 1))) := by
  have hr := h.record k r hk
  have hle := hr.retainedDepth_le
  have hret' := retainedDepth_cleanup_succ hret
  have hlen : (r.path.indices.take (p + 1)).length = p + 1 := hr.length_take (by omega)
  refine h.cleanup_succ hk hlive hret rfl ?_ (fun j s hjk hj => ?_) ?_
  · refine ⟨p + 1, hret'.ge, fun _ => hret'.symm, fun q hq => ?_, fun q f hq hq' => by omega⟩
    have hon := (h.held k r hk).onTree_of_has (by omega) hchild ⟨_, hnode⟩
    obtain ⟨g, hg, hgnode⟩ := hon q (by omega)
    refine ⟨g, hg, ?_⟩
    rw [T.detach_node_of_ne _ fun he => hq.ne (hr.take_inj (by omega) (by omega) he)]
    exact hgnode
  · refine Held.detach hrepr h hj hlen (by omega) hnode hempty fun hs hdead hlt hf => ?_
    obtain ⟨t, i, hpt, ht, hbusy, -⟩ := hspare hs j s (p + 1) hjk hj hdead (by omega) (by omega) hlt
      (by rw [hchild, hf])
    obtain rfl : t = p + 1 := by omega
    exact hempty i hbusy
  · intro hs path f hf
    obtain ⟨hne, hf⟩ := Tree.detach_node_eq_some.mp hf
    refine frameIsKnown_setRecord hk (fun q hq hfq => ⟨?_, hfq⟩) (h.known hs path f hf)
    by_contra hq'
    obtain rfl : q = p + 1 := by omega
    rw [hchild] at hfq
    cases hfq
    exact hne (hrepr.inj hf hnode)

end Detach

/-- What was spared before a table is given back is spared after it. -/
theorem Spared.detach (h : Spared core T k r) (hr : RecordOk core r)
    (hret : r.retainedDepth = p + 2) (hempty : ∀ i, ¬T.Busy (r.path.indices.take (p + 1)) i) :
    Spared (core.setRecord k r.cleaned)
      (T.detach (r.path.indices.take (p + 1))) k r.cleaned := by
  have hret' := retainedDepth_cleanup_succ hret
  have hle := hr.retainedDepth_le
  intro j s q hjk hj hdead hq hqr hqs hframes
  have hj' : core.At j s := ((at_setRecord.mp hj).resolve_left fun hc => hjk hc.1).2
  obtain ⟨t, i, hqt, ht, hbusy, hown⟩ := h j s q hjk hj' hdead hq (by omega) hqs hframes
  have htp : t ≠ p + 1 := by
    rintro rfl
    exact hempty i hbusy
  have hi : r.path.indices[t]? ≠ some i := hown.resolve_right fun hc => by omega
  refine ⟨t, i, hqt, by omega, ?_, .inl hi⟩
  rw [Tree.Busy, T.detach_node_of_ne _ ?_, T.detach_leaf]
  · exact hbusy
  · intro he
    obtain ⟨j, hj⟩ := hr.exists_index (p := p) (by omega)
    change r.path.indices.take t ++ [i] = _ at he
    rw [take_succ_of_getElem? hj] at he
    obtain ⟨htake, hij⟩ := append_inj' he rfl
    obtain rfl := hr.take_inj (by omega) (by omega) htake
    exact hi (by rw [hj]; simpa using hij.symm)

end GiveBack

/-! ## The leaf goes first, the record last -/

section Ends

/-- The page is not mapped any more. -/
theorem Ledger.clearLeaf (h : Ledger strict core T) (hk : core.At k r) (hlive : r.isLive = true) :
    Ledger strict (core.setRecord k { r with phase := .awaitingUnmapInvalidation })
      (T.setLeaf r.path.indices 0) := by
  have hr := h.record k r hk
  refine h.replace hk rfl ⟨hr.depth, hr.indices, hr.frames, hr.root, hr.cleanup,
    fun _ => hr.live hlive, hr.iova, hr.physical, hr.leaf⟩ ?_ (fun j s _ hj => h.held j s hj) ?_ ?_
      ?_
  · have hon := (h.held k r hk).onTree (.inr hlive)
    exact ⟨r.retainedDepth, le_rfl, fun _ => rfl, hon, fun p f hp hp' => absurd hp' (by
      change ¬p < r.retainedDepth
      omega)⟩
  · intro j s hj hl
    rcases at_setRecord.mp hj with ⟨-, rfl⟩ | ⟨hjk, hj⟩
    · cases hl
    · rw [Tree.setLeaf_leaf, update_of_ne fun he => hjk (h.indices_inj hj hk he)]
      exact h.mapped j s hj hl
  · intro path hpath
    have hne : path ≠ r.path.indices := by
      rintro rfl
      rw [Tree.setLeaf_leaf, update_self] at hpath
      exact hpath rfl
    rw [Tree.setLeaf_leaf, update_of_ne hne] at hpath
    obtain ⟨j, s, hj, hl, he⟩ := h.leaf path hpath
    refine ⟨j, s, at_setRecord.mpr (.inr ⟨?_, hj⟩), hl, he⟩
    rintro rfl
    rw [hj.inj hk] at he
    exact hne he.symm
  · exact fun hs path f hf =>
      frameIsKnown_setRecord hk (fun p hp hfp => ⟨hp, hfp⟩) (h.known hs path f hf)

theorem Spared.clearLeaf (h : Spared core T k r) (hr : RecordOk core r) (hlive : r.isLive = true) :
    Spared (core.setRecord k { r with phase := .awaitingUnmapInvalidation })
      (T.setLeaf r.path.indices 0) k { r with phase := .awaitingUnmapInvalidation } := by
  intro j s p hjk hj hdead hp hpr hps hframes
  have hj' : core.At j s := ((at_setRecord.mp hj).resolve_left fun hc => hjk hc.1).2
  obtain ⟨t, i, hpt, ht, hbusy, hown⟩ := h j s p hjk hj' hdead hp hpr hps hframes
  refine ⟨t, i, hpt, ht, ?_, hown⟩
  have hi : r.path.indices[t]? ≠ some i := hown.resolve_right fun hc => hc.2 (hr.live hlive)
  refine hbusy.imp id fun hleaf => ?_
  rw [Tree.setLeaf_leaf, update_of_ne]
  · exact hleaf
  · intro he
    have hlt : t < r.path.indices.length := by
      have := hr.retainedDepth_le
      rw [hr.length_indices]
      change t < r.retainedDepth at ht
      omega
    refine hi ?_
    rw [← he]
    change (r.path.indices.take t ++ [i])[t]? = some i
    simp [length_take, Nat.le_of_lt hlt]

theorem Spared.setPhase {phase : MappingPhase} (h : Spared core T k r) :
    Spared (core.setRecord k { r with phase }) T k { r with phase } := by
  intro j s p hjk hj hdead
  exact h j s p hjk ((at_setRecord.mp hj).resolve_left fun hc => hjk hc.1).2 hdead

/-- The record goes.  The tables that it alone retained must have been given back; the lowest one
it still retains is then the root, or in use by another record. -/
theorem Ledger.retire {entry : SlptFrame → TableIndex → UInt64}
    (hrepr : Represents (layout core.levels) core.root entry T) (h : Ledger strict core T)
    (hk : core.At k r) (hlive : r.isLive = false)
    (hstop : strict → r.retainedDepth = 1 ∨
      ∃ t i, r.retainedDepth = t + 1 ∧ T.Busy (r.path.indices.take t) i) :
    Ledger strict (core.retireSlot k) T := by
  have hr := h.record k r hk
  have hkeep : ∀ {j s}, (core.retireSlot k).At j s → core.At j s :=
    fun hj => (at_retireSlot.mp hj).2
  refine ⟨h.levels, h.width, fun j s hj => (h.record j s (hkeep hj)).congr
    sameShape_retireSlot, fun j s hj => h.held j s (hkeep hj),
    fun i j s t hi hj => h.iova_inj i j s t (hkeep hi) (hkeep hj),
    fun j s hj => h.mapped j s (hkeep hj), ?_, ?_⟩
  · intro path hpath
    obtain ⟨j, s, hj, hl, he⟩ := h.leaf path hpath
    refine ⟨j, s, at_retireSlot.mpr ⟨?_, hj⟩, hl, he⟩
    rintro rfl
    rw [hj.inj hk, hlive] at hl
    cases hl
  · intro hs path f hf
    refine frameIsKnown_mono (h.known hs path f hf) rfl fun j s p hj hp hfp => ?_
    by_cases hjk : j ≠ k
    · exact frameIsKnown_of_at (at_retireSlot.mpr ⟨hjk, hj⟩) hp hfp
    obtain rfl := not_not.mp hjk
    obtain rfl := hj.inj hk
    have hnode := ((h.held j s hk).onTree (.inl hs)).node_eq hp hfp
    -- another record that runs through the lowest table has all the tables above it
    have hthrough : ∀ t j' s', s.retainedDepth = t + 1 → core.At j' s' → j' ≠ j →
        t < s'.retainedDepth → s'.path.indices.take t = s.path.indices.take t →
        (core.retireSlot j).frameIsKnown f = true := by
      intro t j' s' ht hj' hne hlt htake
      obtain ⟨g, hg, hgnode⟩ := (h.held j' s' hj').onTree (.inl hs) p (by omega)
      have hsame : s'.path.indices.take p = s.path.indices.take p := by
        have := congrArg (take p) htake
        rwa [take_take, take_take, min_eq_left (by omega)] at this
      rw [hsame, hnode] at hgnode
      cases hgnode
      exact frameIsKnown_of_at (at_retireSlot.mpr ⟨hne, hj'⟩) (by omega) hg
    rcases hstop hs with hone | ⟨t, i, ht, hbusy⟩
    · obtain rfl : p = 0 := by omega
      rw [hr.root] at hfp
      cases hfp
      exact frameIsKnown_iff.mpr (.inl rfl)
    have htl : t < core.levels := by
      have := hr.retainedDepth_le
      omega
    rcases hbusy with hbusy | hbusy
    · obtain ⟨g, hg⟩ := Option.ne_none_iff_exists'.mp hbusy
      rcases frameIsKnown_iff.mp (h.known hs _ g hg) with rfl | ⟨j', s', q, hj', hq, hgq⟩
      · have := hrepr.inj hg hrepr.root
        simp at this
      · have hpath := hrepr.inj (((h.held j' s' hj').onTree (.inl hs)).node_eq hq hgq) hg
        have hs' := h.record j' s' hj'
        have hql : q ≤ core.levels := by
          have := hs'.retainedDepth_le
          omega
        have hqt : q = t + 1 := by
          have := congrArg length hpath
          rwa [hs'.length_take hql, length_append, hr.length_take htl.le, length_singleton] at this
        refine hthrough t j' s' ht hj' ?_ (by omega) ?_
        · rintro rfl
          rw [hj'.inj hk] at hq
          omega
        · have := congrArg (take t) hpath
          rwa [take_take, min_eq_left (by omega), take_left' (hr.length_take htl.le)]
            at this
    · obtain ⟨j', s', hj', hl, he⟩ := h.leaf _ hbusy
      have hs' := h.record j' s' hj'
      refine hthrough t j' s' ht hj' ?_ ?_ ?_
      · rintro rfl
        rw [hj'.inj hk, hlive] at hl
        cases hl
      · rw [hs'.retainedDepth_of_live hl]
        exact htl
      · rw [he, take_left' (hr.length_take htl.le)]

end Ends

/-! ## Reclaiming -/

section Reclaim

/-- Clearing an entry and putting it back, with nothing visible in between. -/
theorem same_of_restore {m m₁ m₂ m₃ : M} {f : SlptFrame} {i : TableIndex} {e : UInt64}
    (hread : c.owned m f → c.entry m f i = e)
    (hclear : c.Wrote m m₁ f fun j => if j = i then some 0 else none) (hsame : c.Same m₁ m₂)
    (hrestore : c.Wrote m₂ m₃ f fun j => if j = i then some e else none) : c.Same m m₃ where
  owned g := ((hrestore.owned g).trans (hsame.owned g)).trans (hclear.owned g)
  entry g j hg := by
    have hg₁ : c.owned m₁ g := (hclear.owned g).mpr hg
    have hg₂ : c.owned m₂ g := (hsame.owned g).mpr hg₁
    by_cases hgj : g = f ∧ j = i
    · obtain ⟨rfl, rfl⟩ := hgj
      rw [hrestore.set hg₂ j e (by simp), hread hg]
    · rw [hrestore.entry g j hg₂ (by simpa using hgj), hsame.entry g j hg₁,
        hclear.entry g j hg (by simpa using hgj)]

variable (μ : Monitor c I)

/-- The scan of a table. -/
theorem ensures_tableIsEmpty {f : SlptFrame} (l : List TableIndex) (w : World n M I)
    (hf : strict → c.owned w.memory f) :
    Ensures (tableIsEmpty f l) w
      (fun empty w' => w'.core = w.core ∧ w'.invalidator = w.invalidator ∧
        c.Same w.memory w'.memory ∧ μ.Ran strict 0 w.memory w'.memory ∧
        (c.owned w.memory f → if empty then ∀ i ∈ l, c.entry w.memory f i = 0
          else ∃ i, c.entry w.memory f i ≠ 0))
      (fun e w' => (∃ error, e = .memory error) ∧ w'.core = w.core ∧
        w'.invalidator = w.invalidator ∧ c.Same w.memory w'.memory ∧
        μ.Ran strict 1 w.memory w'.memory) := by
  induction l generalizing w with
  | nil => exact ⟨rfl, rfl, .refl _ _, .refl _, fun _ => by simp⟩
  | cons i l ih =>
    rw [tableIsEmpty, ensures_bind, ensures_memory?]
    refine (μ.ensures_read strict i hf).mono ?_ ?_
    · rintro entry m₁ ⟨⟨hs, he⟩, hr⟩
      rw [ensures_ite]
      constructor
      · intro hne
        refine ⟨rfl, rfl, hs, hr, fun hown => ?_⟩
        exact ⟨i, by rw [← he hown]; simpa using hne⟩
      · intro hzero
        have hzero : entry = 0 := by simpa using hzero
        refine (ih { w with memory := m₁ } fun hstrict => (hs.owned f).mpr (hf hstrict)).mono ?_ ?_
        · rintro empty w' ⟨hcore, hinv, hs', hr', hscan⟩
          refine ⟨hcore, hinv, hs.trans hs', hr.zero_trans hr', fun hown => ?_⟩
          have hscan := hscan ((hs.owned f).mpr hown)
          have hentry : ∀ j, c.entry m₁ f j = c.entry w.memory f j := fun j => hs.entry f j hown
          simp only [hentry] at hscan
          cases empty with
          | false => exact hscan
          | true =>
            intro j hj
            rcases mem_cons.mp hj with rfl | hj
            · rw [← he hown, hzero]
            · exact hscan j hj
        · rintro e w' ⟨herr, hcore, hinv, hs', hr'⟩
          exact ⟨herr, hcore, hinv, hs.trans hs', hr.zero_trans hr'⟩
    · rintro e m₁ ⟨hs, hr⟩
      exact ⟨⟨e, rfl⟩, rfl, rfl, hs, hr⟩

/-- The tables and the ledger agree, and the record in slot `k` has only given tables back. -/
def Reclaimed (c : Contract M) (strict : Prop) (k : Fin n) (r : MappingRecord)
    (w w' : World n M I) (T : TableTree) (d : Nat) : Prop :=
  w'.core = w.core.setRecord k { r with cleanupDepth := d } ∧ Ledger strict w'.core T ∧
    Stored c.toView w'.core w'.memory T

/-- How reclaiming may fail. -/
def ReclaimFailed (strict : Prop) (k : Fin n) (r : MappingRecord) (w : World n M I) :
    ReclaimError → World n M I → Prop
  | .memory _, w' => (∃ T d, Reclaimed c strict k r w w' T d) ∧
      μ.Ran strict 1 w.memory w'.memory ∧ μ.Missed 0 w.invalidator w'.invalidator
  | .invalidation _, w' => (∃ T d, Reclaimed c strict k r w w' T d) ∧
      μ.Ran strict 0 w.memory w'.memory ∧ μ.Missed 1 w.invalidator w'.invalidator
  | .fatal, w' => (∃ d, w'.core = w.core.setRecord k { r with cleanupDepth := d }) ∧
      ∃ d e, μ.Ran strict d w.memory w'.memory ∧ μ.Missed e w.invalidator w'.invalidator ∧
        (strict → 2 ≤ d + e)

/-- The tables of a record whose retained part ends in a table that stays. -/
def Stops (T : TableTree) (r : MappingRecord) : Prop :=
  r.retainedDepth = 1 ∨ ∃ t i, r.retainedDepth = t + 1 ∧ T.Busy (r.path.indices.take t) i

omit [SlptInvalidator I] in
theorem reclaimed_self (hL : Ledger strict w.core T) (hst : Stored c.toView w.core w.memory T)
    (hk : w.core.At k r) (hcore : w'.core = w.core)
    (hsame : c.Same w.memory w'.memory) :
    Reclaimed c strict k r w w' T r.cleanupDepth := by
  refine ⟨hcore.trans (setRecord_self hk).symm, hcore ▸ hL, ?_⟩
  rw [hcore]
  exact hst.same hsame

/-- The ledger and the tables after a table was unlinked and released. -/
theorem Ledger.released {p : Nat} {parent child : SlptFrame} {i : TableIndex} {m : M}
    {core : Core n} (hL : Ledger strict core T) (m' : M) (hst : Stored c.toView core m T)
    (hk : core.At k r) (hlive : r.isLive = false) (hret : r.retainedDepth = p + 2)
    (hchild : r.path.frames[p + 1]? = some child) (hparent : r.path.frames[p]? = some parent)
    (hi : r.path.indices[p]? = some i) (hempty : c.owned m child → ∀ j, c.entry m child j = 0)
    (hread : c.owned m parent → c.entry m parent i = tablePointer child)
    (howned : ∀ g, c.owned m' g ↔ c.owned m g ∧ g ≠ child)
    (hcleared : c.owned m' parent → c.entry m' parent i = 0)
    (hrest : ∀ g j, c.owned m' g → ¬(g = parent ∧ j = i) → c.entry m' g j = c.entry m g j)
    (hspare : strict → Spared core T k r) :
    ∃ T', Ledger strict (core.setRecord k r.cleaned) T' ∧
      Stored c.toView core m' T' ∧
      (strict → Spared (core.setRecord k r.cleaned) T' k r.cleaned) := by
  have hr := hL.record k r hk
  have hle := hr.retainedDepth_le
  have htake := take_succ_of_getElem? hi
  by_cases hhas : T.Has child
  · have hon := (hL.held k r hk).onTree_of_has (by omega) hchild hhas
    have hnode := hon.node_eq (Nat.lt_succ_self _) hchild
    have hpnode := hon.node_eq (by omega) hparent
    have hempty' := hempty ((hst.owned child).mpr hhas)
    have hbusy : ∀ j, ¬T.Busy (r.path.indices.take (p + 1)) j := by
      intro j hj
      exact (hst.repr.entry_ne_zero_iff hnode trivial).mpr hj (hempty' j)
    have hhas' : ∀ g, (T.detach (r.path.indices.take (p + 1))).Has g ↔ T.Has g ∧ g ≠ child := by
      intro g
      constructor
      · intro hg
        refine ⟨hg.of_detach, ?_⟩
        rintro rfl
        exact not_has_detach hst.repr hnode hg
      · rintro ⟨⟨q, hq⟩, hgc⟩
        refine ⟨q, ?_⟩
        rw [T.detach_node_of_ne _
          (by rintro rfl; exact hgc (Option.some.inj (hq.symm.trans hnode)))]
        exact hq
    have hown' : ∀ g, c.owned m' g ↔ (T.detach (r.path.indices.take (p + 1))).Has g := by
      intro g
      rw [howned g, hst.owned g, hhas' g]
    refine ⟨_, hL.cleanup_detach hst.repr hk hlive hret hchild hnode hbusy hspare, ⟨?_, hown'⟩,
      fun hs => (hspare hs).detach hr hret hbusy⟩
    -- the entries with the link cleared, and then without the released table
    let entry' : SlptFrame → TableIndex → UInt64 := fun g j =>
      if g = parent ∧ j = i then 0 else c.entry m g j
    have hdetach : Represents (layout core.levels) core.root entry'
        (T.detach (r.path.indices.take (p + 1))) := by
      rw [htake] at hnode ⊢
      exact hst.repr.detach hpnode (fun g j _ hgj => by simp only [entry', hgj, if_false]) hnode
        trivial hempty' (by simp [entry'])
    refine hdetach.congr fun g j hg => ?_
    have hg' := (hown' g).mpr hg
    by_cases hgj : g = parent ∧ j = i
    · obtain ⟨rfl, rfl⟩ := hgj
      simp only [entry', and_self, if_true]
      exact hcleared hg'
    · simp only [entry', hgj, if_false]
      exact hrest g j hg' hgj
  · -- the table was lost before, and so was its parent: nothing visible has happened
    have hlost : ¬c.owned m child := fun h => hhas ((hst.owned child).mp h)
    have hplost : ¬c.owned m parent := by
      intro hown
      have hp := (hst.owned parent).mp hown
      have hon := (hL.held k r hk).onTree_of_has (by omega) hparent hp
      have hpnode := hon.node_eq (Nat.lt_succ_self _) hparent
      have hentry := hread hown
      rw [hst.repr.inner hpnode (by
        rw [hr.length_take (by omega)]
        show p + 1 < core.levels
        omega) i trivial] at hentry
      cases hnode : T.node (r.path.indices.take p ++ [i]) with
      | none =>
        rw [hnode] at hentry
        exact tablePointer_ne_zero child hentry.symm
      | some g =>
        rw [hnode] at hentry
        have hptr : tablePointer g = tablePointer child := hentry
        have hdec := decodeTablePointer_tablePointer g
        rw [hptr, decodeTablePointer_tablePointer] at hdec
        cases hdec
        exact hhas ⟨_, hnode⟩
    have hsame : c.Same m m' := by
      have howned' : ∀ g, c.owned m' g ↔ c.owned m g := fun g => by
        rw [howned g]
        exact ⟨And.left, fun h => ⟨h, fun hc => hlost (hc ▸ h)⟩⟩
      exact ⟨howned', fun g j hg => hrest g j ((howned' g).mpr hg) fun hc => hplost (hc.1 ▸ hg)⟩
    exact ⟨T, hL.cleanup_lost hk hlive hret hchild hhas, hst.same hsame,
      fun hs => absurd hs (hL.not_strict hk (by omega) hchild hhas)⟩

/-- The link is put back after a call that failed, as the error to report says; a second failure
leaves the table unlinked. -/
theorem ensures_restorePointer {α : Type} {parent child : SlptFrame} {i : TableIndex}
    {error : ReclaimError} {m m₁ m₂ : M} {i' : I} {d e : Nat} {Q : α → World n M I → Prop}
    (hk : w.core.At k r) (hcost : d + e = 1)
    (herror : ∀ w', w'.core = w.core → c.Same w.memory w'.memory →
      μ.Ran strict d w.memory w'.memory → μ.Missed e w.invalidator w'.invalidator →
      ReclaimFailed μ strict k r w error w')
    (hbefore : c.Same w.memory m)
    (hread : c.owned m parent → c.entry m parent i = tablePointer child)
    (hclear : c.Wrote m m₁ parent fun j => if j = i then some 0 else none) (hsame : c.Same m₁ m₂)
    (hparent : strict → c.owned m₂ parent) (hran : μ.Ran strict d w.memory m₂)
    (hmissed : μ.Missed e w.invalidator i') :
    Ensures (restorePointer parent i (tablePointer child) error) ⟨w.core, m₂, i'⟩ Q
      (ReclaimFailed μ strict k r w) := by
  rw [restorePointer, ensures_bind, ensures_onMemory]
  refine (μ.ensures_write strict i _ hparent).mono ?_ ?_
  · rintro ⟨⟩ m₃ ⟨hw, hr⟩
    exact herror _ rfl (hbefore.trans (same_of_restore hread hclear hsame hw)) (hran.trans_zero hr)
      hmissed
  · rintro _ m₃ ⟨-, hr⟩
    exact ⟨⟨_, (setRecord_self hk).symm⟩, d + 1, e, hran.trans hr, hmissed, fun _ => by omega⟩

variable {μ} in
/-- What happened in the first turn of the loop comes before the others. -/
theorem ReclaimFailed.after {d : Nat} {e : ReclaimError}
    (h : ReclaimFailed μ strict k { r with cleanupDepth := d } w₁ e w')
    (hcore : w₁.core = w.core.setRecord k { r with cleanupDepth := d })
    (hmissed : μ.Missed 0 w.invalidator w₁.invalidator)
    (hr : μ.Ran strict 0 w.memory w₁.memory) : ReclaimFailed μ strict k r w e w' := by
  have hback : ∀ {d' T}, Reclaimed c strict k { r with cleanupDepth := d } w₁ w' T d' →
      Reclaimed c strict k r w w' T d' := by
    rintro d' T ⟨hc, hL⟩
    exact ⟨by rw [hc, hcore, setRecord_setRecord], hL⟩
  cases e with
  | memory _ | invalidation _ =>
    obtain ⟨⟨T, d', hT⟩, hr', hm⟩ := h
    exact ⟨⟨T, d', hback hT⟩, hr.zero_trans hr', hmissed.zero_trans hm⟩
  | fatal =>
    obtain ⟨⟨d', hc⟩, d₂, e₂, hr', hm, hd⟩ := h
    exact ⟨⟨d', by rw [hc, hcore, setRecord_setRecord]⟩, d₂, e₂, hr.zero_trans hr',
      hmissed.zero_trans hm, hd⟩

/-- **The loop of `reclaim_empty_tables`**, by induction on the position of the next table. -/
theorem ensures_reclaimEmptyTables (p : Nat) (hL : Ledger strict w.core T)
    (hst : Stored c.toView w.core w.memory T) (hk : w.core.At k r) (hlive : r.isLive = false)
    (hret : r.retainedDepth = p + 1) (hspare : strict → Spared w.core T k r) :
    Ensures (reclaimEmptyTables k p r) w (fun _ w' => (∃ T' d, Reclaimed c strict k r w w' T' d ∧
          (strict → Stops T' { r with cleanupDepth := d })) ∧
        μ.Ran strict 0 w.memory w'.memory ∧ μ.Missed 0 w.invalidator w'.invalidator)
      (ReclaimFailed μ strict k r w) := by
  induction p generalizing w r T with
  | zero =>
    exact ⟨⟨T, _, reclaimed_self hL hst hk rfl (.refl _ _), fun _ => .inl hret⟩, .refl _, .refl _⟩
  | succ p ih =>
    rw [reclaimEmptyTables]
    have hall : ∀ i, i ∈ finRange entriesPerTable := mem_finRange
    generalize finRange entriesPerTable = l at hall
    have hr := hL.record k r hk
    have hle := hr.retainedDepth_le
    obtain ⟨child, hchild⟩ := hr.exists_frame (p := p + 1) (by omega)
    obtain ⟨parent, hparent⟩ := hr.exists_frame (p := p) (by omega)
    obtain ⟨i, hi⟩ := hr.exists_index (p := p) (by omega)
    have hon : strict → T.node (r.path.indices.take (p + 1)) = some child ∧ T.Has parent := by
      intro hs
      have hon := (hL.held k r hk).onTree (.inl hs)
      exact ⟨hon.node_eq (by omega) hchild, _, hon.node_eq (by omega) hparent⟩
    have hoc : strict → c.owned w.memory child := fun hs =>
      (hst.owned child).mpr ⟨_, (hon hs).1⟩
    have hop : strict → c.owned w.memory parent := fun hs => (hst.owned parent).mpr (hon hs).2
    simp only [ensures_rules, getD_eq_getElem?_getD, hchild, hparent, hi, Option.getD_some]
    refine (ensures_tableIsEmpty μ l w hoc).mono ?_ ?_
    swap
    · rintro e w₁ ⟨⟨error, rfl⟩, hcore, hinv, hs, hran⟩
      exact ⟨⟨T, _, reclaimed_self hL hst hk hcore hs⟩, hran, hinv ▸ .refl _⟩
    rintro empty ⟨_, m₁, _⟩ ⟨rfl, rfl, hs₁, hran₁, hscan⟩
    have hstay : ∀ {error m'}, c.Same w.memory m' → μ.Ran strict 1 w.memory m' →
        ReclaimFailed μ strict k r w (.memory error) { w with memory := m' } :=
      fun hs hran => ⟨⟨T, _, reclaimed_self hL hst hk rfl hs⟩, hran, .refl _⟩
    rw [ensures_ite]
    constructor
    · -- the table is in use
      intro hne
      obtain rfl : empty = false := by simpa using hne
      refine ⟨⟨T, _, reclaimed_self hL hst hk rfl hs₁, fun hs => .inr ⟨p + 1, ?_⟩⟩, hran₁, .refl _⟩
      obtain ⟨j, hj⟩ := hscan (hoc hs)
      exact ⟨j, hret, (hst.repr.entry_ne_zero_iff (hon hs).1 trivial).mp hj⟩
    intro hemp
    obtain rfl : empty = true := by simpa using hemp
    simp only [if_true, hall, forall_const] at hscan
    rw [ensures_bind, ensures_memory?]
    have hop₁ : strict → c.owned m₁ parent := fun hs => (hs₁.owned parent).mpr (hop hs)
    refine (μ.ensures_read strict i hop₁).mono ?_
      fun e m₂ h => hstay (hs₁.trans h.1) (hran₁.zero_trans h.2)
    rintro entry m₂ ⟨⟨hs₂, hentry⟩, hran₂⟩
    have hs₁₂ : c.Same w.memory m₂ := hs₁.trans hs₂
    have hran₁₂ := hran₁.zero_trans hran₂
    simp only [ensures_bind, ensures_ite]
    constructor
    · -- another pointer than the record says: only after a table was lost
      intro hne
      refine ⟨⟨_, (setRecord_self hk).symm⟩, 0, 0, hran₁₂, .refl _, fun hs => ?_⟩
      have hpnode := ((hL.held k r hk).onTree (.inl hs)).node_eq (by omega) hparent
      have hinner := hst.repr.inner hpnode (by
        rw [hr.length_take (by omega)]
        show p + 1 < w.core.levels
        omega) i trivial
      rw [← take_succ_of_getElem? hi, (hon hs).1] at hinner
      rw [hentry (hop₁ hs), hs₁.entry parent i (hop hs), hinner] at hne
      simp [layout] at hne
    intro heq
    have heq : entry = tablePointer child := by simpa using heq
    have hread : c.owned m₂ parent → c.entry m₂ parent i = tablePointer child := by
      intro hown
      have hown₁ : c.owned m₁ parent := (hs₂.owned parent).mp hown
      rw [hs₂.entry parent i hown₁, ← hentry hown₁, heq]
    have hop₂ : strict → c.owned m₂ parent := fun hs => (hs₂.owned parent).mpr (hop₁ hs)
    rw [ensures_memory?]
    refine (μ.ensures_write strict i 0 hop₂).mono ?_
      fun e m₃ h => hstay (hs₁₂.trans h.1) (hran₁₂.zero_trans h.2)
    rintro ⟨⟩ m₃ ⟨hw₃, hran₃⟩
    have hran₁₃ := hran₁₂.zero_trans hran₃
    have hop₃ : strict → c.owned m₃ parent := fun hs => (hw₃.owned parent).mpr (hop₂ hs)
    rw [ensures_onInvalidator]
    refine (μ.ensures_invalidate r.iova w.invalidator).mono ?_ ?_
    swap
    · -- the invalidation failed: the link is put back
      rintro e i' hmissed
      exact ensures_restorePointer μ hk rfl (fun w' hcore hs hran hm =>
        ⟨⟨T, _, reclaimed_self hL hst hk hcore hs⟩, hran, hm⟩) hs₁₂ hread hw₃ (.refl _ _) hop₃
        hran₁₃ hmissed
    rintro ⟨⟩ i' hmissed
    have hoc₃ : strict → c.owned m₃ child := fun hs =>
      (hw₃.owned child).mpr ((hs₁₂.owned child).mpr (hoc hs))
    simp only [ensures_bind, ensures_onMemory]
    refine (μ.ensures_release strict hoc₃).mono ?_ ?_
    swap
    · -- the release failed: the link is put back
      rintro e m₄ ⟨hs₄, hran₄⟩
      exact ensures_restorePointer μ hk rfl (fun w' hcore hs hran hm =>
        ⟨⟨T, _, reclaimed_self hL hst hk hcore hs⟩, hran, hm⟩) hs₁₂ hread hw₃ hs₄
        (fun hs => (hs₄.owned parent).mpr (hop₃ hs)) (hran₁₃.zero_trans hran₄) hmissed
    rintro ⟨⟩ m₄ ⟨⟨hown₄, hentry₄⟩, hran₄⟩
    have hst₂ := hst.same hs₁₂
    obtain ⟨T', hL', hst', hspare'⟩ := hL.released m₄ hst₂ hk hlive hret hchild hparent hi
      (fun hown j => by
        have hown' := (hs₁₂.owned child).mp hown
        rw [hs₁₂.entry child j hown', hscan hown' j])
      hread (fun g => by rw [hown₄ g, hw₃.owned g])
      (fun hown => by
        rw [hentry₄ parent i hown]
        exact hw₃.set ((hw₃.owned parent).mp ((hown₄ parent).mp hown).1) i 0 (by simp))
      (fun g j hg hgj => by
        rw [hentry₄ g j hg]
        exact hw₃.entry g j ((hw₃.owned g).mp ((hown₄ g).mp hg).1) (by simpa using hgj))
      hspare
    refine (ih (w := ⟨w.core.setRecord k r.cleaned, m₄, i'⟩) hL' (hst'.congr sameShape_setRecord)
      at_setRecord_self hlive (retainedDepth_cleanup_succ hret) hspare').mono ?_ ?_
    · rintro ⟨⟩ w' ⟨⟨T'', d, ⟨hc, hL''⟩, hstop⟩, hran', hm⟩
      exact ⟨⟨T'', d, ⟨by rw [hc, setRecord_setRecord], hL''⟩, hstop⟩,
        hran₁₃.zero_trans (hran₄.zero_trans hran'), hmissed.zero_trans hm⟩
    · intro e w' h
      exact h.after rfl hmissed (hran₁₃.zero_trans hran₄)

end Reclaim

/-! ## The calls -/

section Unmap

variable (μ : Monitor c I) (strict : Prop)

/-- How an unmap that was accepted may end.  A page that is not done has a record that is on its
way out. -/
def UnmapAnswered (k : Fin n) (r : MappingRecord) (receipt : UnmapReceipt) (w : World n M I) :
    UnmapOutcome → World n M I → Prop
  | .complete, w' => Step μ strict 0 0 w w' ∧ w'.core = w.core.retireSlot k
  | .pending receipt' cause, w' => receipt' = receipt ∧
      (∃ s, w'.core = w.core.setRecord k s ∧ s.iova = r.iova ∧ s.isLive = false) ∧
      match cause with
      | .cleanup _ => Step μ strict 1 0 w w'
      | .invalidation _ => Step μ strict 0 1 w w'

/-- A link could not be put back. -/
def UnmapPoisoned (w w' : World n M I) : Prop :=
  ∃ d e, Step μ strict d e w w' ∧ w'.core.state = .poisoned

variable {μ strict} {receipt : UnmapReceipt}

theorem ensures_cleanUp (hop : w.core.state = .operational) (hL : Ledger strict w.core T)
    (hst : Stored c.toView w.core w.memory T) (hk : w.core.At k r) (hlive : r.isLive = false)
    (hspare : strict → Spared w.core T k r) :
    Ensures (cleanUp k r receipt) w (UnmapAnswered μ strict k r receipt w)
      (fun _ w' => UnmapPoisoned μ strict w w') := by
  have hr := hL.record k r hk
  have hret : r.retainedDepth = r.path.depth - 1 - r.cleanupDepth + 1 := by
    have := hr.retainedDepth_pos
    rw [MappingRecord.retainedDepth] at this ⊢
    omega
  have hnp : ∀ {w' : World n M I} {s}, w'.core = w.core.setRecord k s →
      w'.core.state ≠ .poisoned := by
    intro w' s hcore
    rw [hcore]
    show w.core.state ≠ _
    simp [hop]
  rw [cleanUp, ensures_bind, ensures_attempt]
  refine (ensures_reclaimEmptyTables μ _ hL hst hk hlive hret hspare).mono ?_ ?_
  · rintro ⟨⟩ w' ⟨⟨T', d, ⟨hcore, hL', hst'⟩, hstop⟩, hran, hmissed⟩
    have hk' : w'.core.At k { r with cleanupDepth := d } := by
      rw [hcore]
      exact at_setRecord_self
    refine ⟨⟨fun _ => ⟨T', hL'.retire hst'.repr hk' hlive hstop,
      hst'.congr sameShape_retireSlot⟩, hran, hmissed,
      fun _ hp => absurd (show w'.core.state = .poisoned from hp) (hnp hcore)⟩, ?_⟩
    show w'.core.retireSlot k = _
    rw [hcore, retireSlot_setRecord]
  · intro error w' hres
    cases error with
    | memory _ | invalidation _ =>
      obtain ⟨⟨T', d, hcore, hL', hst'⟩, hran, hmissed⟩ := hres
      exact ⟨rfl, ⟨_, hcore, rfl, hlive⟩,
        ⟨fun _ => ⟨T', hL', hst'⟩, hran, hmissed, fun _ hp => absurd hp (hnp hcore)⟩⟩
    | fatal =>
      obtain ⟨⟨d', hcore⟩, d, e, hran, hmissed, hd⟩ := hres
      exact ⟨d, e, ⟨fun h => absurd h (by simp), hran, hmissed, fun hs _ => .inr (hd hs)⟩, rfl⟩

theorem UnmapAnswered.after {s : MappingRecord} {outcome : UnmapOutcome}
    (h : UnmapAnswered μ strict k s receipt w₁ outcome w') (hs : s.iova = r.iova)
    (hcore : w₁.core = w.core.setRecord k s)
    (hmissed : μ.Missed 0 w.invalidator w₁.invalidator)
    (hr : μ.Ran strict 0 w.memory w₁.memory) : UnmapAnswered μ strict k r receipt w outcome w' := by
  cases outcome with
  | complete =>
    obtain ⟨hst, hc⟩ := h
    exact ⟨hst.after hcore hmissed hr, by rw [hc, hcore, retireSlot_setRecord]⟩
  | pending receipt' cause =>
    obtain ⟨hreceipt, ⟨q, hq, hiova, hl⟩, hrest⟩ := h
    refine ⟨hreceipt, ⟨q, by rw [hq, hcore, setRecord_setRecord], hiova.trans hs, hl⟩, ?_⟩
    cases cause with
    | invalidation _ | cleanup _ => exact hrest.after hcore hmissed hr

section

variable (hop : w.core.state = .operational) (hL : Ledger strict w.core T)
  (hst : Stored c.toView w.core w.memory T) (hspare : strict → Spared w.core T k r)
include hop hL hst hspare

/-- `finish_unmap` for a receipt that it accepts. -/
theorem ensures_finishUnmap (hindex : w.core.recordIndex receipt.handle = .ok (k, r))
    (hphase : r.phase = .awaitingUnmapInvalidation ∨ r.phase = .awaitingCleanup) :
    Ensures (finishUnmap receipt) w (UnmapAnswered μ strict k r receipt w)
      (fun _ w' => UnmapPoisoned μ strict w w') := by
  have hk := (recordIndex_eq_ok.mp hindex).2.1
  have hlive : r.isLive = false := by
    rcases hphase with h | h <;> simp [MappingRecord.isLive, h]
  simp only [finishUnmap, ensureOperational, ensures_rules, hop, bne_self_eq_false, hindex,
    reduceCtorEq]
  rintro _ ⟨⟩
  rw [ensures_ite]
  constructor
  · intro hawait
    rw [ensures_bind, ensures_onInvalidator]
    refine (μ.ensures_invalidate r.iova w.invalidator).mono ?_ ?_
    · rintro ⟨⟩ i hmissed
      have hlive' : { r with phase := .awaitingCleanup }.isLive = r.isLive := by
        rw [hlive]
        rfl
      refine (ensures_cleanUp (μ := μ)
        (w := ⟨w.core.setRecord k { r with phase := .awaitingCleanup }, w.memory, i⟩) hop
        (hL.setPhase hk hlive') (hst.congr sameShape_setRecord)
        at_setRecord_self rfl fun hs => (hspare hs).setPhase).mono ?_ ?_
      · intro outcome w' h
        exact h.after rfl rfl hmissed (.refl _)
      · rintro _ w' ⟨d, e, hstep, hp⟩
        exact ⟨d, e, hstep.after rfl hmissed (.refl _), hp⟩
    · intro e i hmissed
      exact ⟨rfl, ⟨r, (setRecord_self hk).symm, rfl, hlive⟩,
        ⟨fun _ => ⟨T, hL, hst⟩, .refl _, hmissed, fun _ hp => .inl hp⟩⟩
  · intro hawait
    have hclean : r.phase = .awaitingCleanup := hphase.resolve_left hawait
    simp only [ensures_rules, hclean, bne_self_eq_false]
    exact ensures_cleanUp hop hL hst hk hlive hspare

/-- How an unmap that was accepted may fail: without having done anything, or for good. -/
def UnmapFailed (μ : Monitor c I) (strict : Prop) (w w' : World n M I) : Prop :=
  UnmapPoisoned μ strict w w' ∨
    Step μ strict 1 0 w w' ∧ w'.core = w.core

variable {handle : MappingHandle}

/-- `unmap_page` and `cancel_pending_map`, once the page is found to be mapped. -/
theorem ensures_clearLeaf (hindex : w.core.recordIndex handle = .ok (k, r))
    (hlive : r.isLive = true) :
    Ensures (clearLeaf k r handle) w (UnmapAnswered μ strict k r ⟨handle⟩ w)
      (fun _ w' => UnmapFailed μ strict w w') := by
  have hk := (recordIndex_eq_ok.mp hindex).2.1
  have hr := hL.record k r hk
  have h2 := hL.levels.1
  obtain ⟨l, hl⟩ : ∃ l, w.core.levels = l + 1 := ⟨w.core.levels - 1, by omega⟩
  obtain ⟨table, htable⟩ := hr.exists_frame (p := l) (by omega)
  obtain ⟨i, hi⟩ := hr.exists_index (p := l) (by omega)
  have hnode := ((hL.held k r hk).onTree (.inr hlive)).node_eq
    (by rw [hr.retainedDepth_of_live hlive]; omega) htable
  have hfull : r.path.indices.take l ++ [i] = r.path.indices := by
    rw [← take_succ_of_getElem? hi, take_of_length_le (by rw [hr.length_indices]; omega)]
  have hdepth : (r.path.indices.take l).length + 1 = (layout w.core.levels).levels := by
    rw [hr.length_take (by omega)]
    exact hl.symm
  have howned : c.owned w.memory table := (hst.owned table).mpr ⟨_, hnode⟩
  have hentry : c.entry w.memory table i = r.leaf := by
    rw [hst.repr.last hnode hdepth i trivial, hfull, hL.mapped k r hk hlive]
  have hearly : ∀ m', c.Same w.memory m' → μ.Ran strict 1 w.memory m' →
      UnmapFailed μ strict w { w with memory := m' } := fun m' hs hran =>
    .inr ⟨⟨fun _ => ⟨T, hL, hst.same hs⟩, hran, .refl _, fun _ hp => .inl hp⟩, rfl⟩
  simp only [clearLeaf, ensures_rules, ensures_memory?, hr.depth, hl, Nat.add_sub_cancel,
    getD_eq_getElem?_getD, htable, hi, Option.getD_some]
  refine (μ.ensures_read strict i fun _ => howned).mono ?_ fun e m₁ h => hearly m₁ h.1 h.2
  rintro entry m₁ ⟨⟨hs, he⟩, hran⟩
  obtain rfl : entry = r.leaf := (he howned).trans hentry
  have howned₁ : c.owned m₁ table := (hs.owned table).mpr howned
  have hst₁ := hst.same hs
  simp only [bne_self_eq_false, Bool.false_eq_true, if_false, ensures_bind, ensures_memory?,
    ensures_modifyCore]
  refine (μ.ensures_write strict i 0 fun _ => howned₁).mono ?_
    fun e m₂ h => hearly m₂ (hs.trans h.1) (hran.zero_trans h.2)
  rintro ⟨⟩ m₂ ⟨hw, hran₂⟩
  have hst₂ : Stored c.toView w.core m₂ (T.setLeaf r.path.indices 0) :=
    hfull ▸ hst₁.setLeaf hnode hdepth hw
  refine (ensures_finishUnmap (μ := μ)
    (w := ⟨w.core.setRecord k { r with phase := .awaitingUnmapInvalidation }, m₂, w.invalidator⟩)
    hop (hL.clearLeaf hk hlive) (hst₂.congr sameShape_setRecord)
    (fun hs => (hspare hs).clearLeaf hr hlive) (recordIndex_setRecord hindex) (.inl rfl)).mono ?_ ?_
  · intro outcome w' h
    exact h.after rfl rfl (.refl _) (hran.zero_trans hran₂)
  · rintro _ w' ⟨d, e, hstep, hp⟩
    exact .inl ⟨d, e, hstep.after rfl (.refl _) (hran.zero_trans hran₂), hp⟩

/-- `unmap_page` for a handle that it accepts. -/
theorem ensures_unmapPage (hindex : w.core.recordIndex handle = .ok (k, r))
    (hphase : r.phase = .active) :
    Ensures (unmapPage handle) w (UnmapAnswered μ strict k r ⟨handle⟩ w)
      (fun _ w' => UnmapFailed μ strict w w') := by
  simp only [unmapPage, ensureOperational, ensures_rules, hop, bne_self_eq_false, hindex,
    reduceCtorEq]
  rintro _ ⟨⟩
  simp only [hphase, bne_self_eq_false, Bool.false_eq_true, false_implies, true_implies, true_and]
  exact ensures_clearLeaf hop hL hst hspare hindex (isLive_iff.mpr (.inr hphase))

/-- `cancel_pending_map` for a receipt that it accepts. -/
theorem ensures_cancelPendingMap {receipt : MapReceipt}
    (hindex : w.core.recordIndex receipt.handle = .ok (k, r))
    (hphase : r.phase = .awaitingMapInvalidation) :
    Ensures (cancelPendingMap receipt) w (UnmapAnswered μ strict k r ⟨receipt.handle⟩ w)
      (fun _ w' => UnmapFailed μ strict w w') := by
  simp only [cancelPendingMap, ensureOperational, ensures_rules, hop, bne_self_eq_false, hindex,
    reduceCtorEq]
  rintro _ ⟨⟩
  simp only [hphase, bne_self_eq_false, Bool.false_eq_true, false_implies, true_implies, true_and]
  exact ensures_clearLeaf hop hL hst hspare hindex (isLive_iff.mpr (.inl hphase))

end

end Unmap

end Sisyphus.Slpt
