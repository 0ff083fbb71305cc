import Mathlib.Data.UInt
import Mathlib.Tactic

/-!
# Tables of slots with generations

A fixed number of slots, each of them empty or occupied.  A handle names a slot and a generation,
and whoever moves into a slot gets its generation increased by one, so that the handles of earlier
occupants do not find the new one.  A slot whose generation cannot be increased any more stays
empty.

`lookup` is how a table is seen from outside, and `fill` and `vacate` change it at one handle only
(`lookup_fill`, `lookup_vacate`).  What a table can become is the preorder `Evolves`, under which a
handle that has been live and is not live any more is dead for good (`Evolves.lookup_eq_none`).
-/

set_option autoImplicit false

namespace Sisyphus.Slots

open List

@[ext] structure Handle where
  slot : Nat
  generation : UInt32
  deriving DecidableEq

structure Slot (α : Type) where
  generation : UInt32
  occupant : Option α
  deriving DecidableEq

abbrev Table (α : Type) := List (Slot α)

variable {α : Type}

def empty (α : Type) (n : Nat) : Table α := List.replicate n ⟨0, none⟩

/-- Somebody can move in. -/
def Slot.isOpen (s : Slot α) : Bool := s.occupant.isNone && s.generation != 0xffffffff

/-- The handle that the next one to move in will get. -/
def vacancy (t : Table α) : Option Handle :=
  (t.findIdx? Slot.isOpen).bind fun i => t[i]?.map fun s => ⟨i, s.generation + 1⟩

def fill (t : Table α) (h : Handle) (a : α) : Table α := t.set h.slot ⟨h.generation, some a⟩

def vacate (t : Table α) (h : Handle) : Table α :=
  t.modify h.slot fun s => { s with occupant := none }

def lookup (t : Table α) (h : Handle) : Option α :=
  t[h.slot]?.bind fun s => if s.generation = h.generation then s.occupant else none

/-- All occupants, by slot. -/
def values (t : Table α) : List α := t.filterMap Slot.occupant

/-! ## Lookups -/

section Lookup

variable {t : Table α} {h k : Handle} {a b : α}

theorem lookup_eq_some : lookup t h = some a ↔ t[h.slot]? = some ⟨h.generation, some a⟩ := by
  rw [lookup]
  constructor
  · intro hl
    obtain ⟨s, hs, hif⟩ := Option.bind_eq_some_iff.mp hl
    split at hif
    · next hgen => rw [hs, ← hgen, ← hif]
    · cases hif
  · intro hs
    simp [hs]

theorem lookup_eq_none_of_ne {s : Slot α} (hs : t[h.slot]? = some s)
    (hne : s.generation ≠ h.generation) : lookup t h = none := by
  simp [lookup, hs, hne]

@[simp] theorem lookup_empty (n : Nat) (h : Handle) : lookup (empty α n) h = none := by
  rw [Option.eq_none_iff_forall_ne_some]
  intro a ha
  have := eq_of_mem_replicate (mem_of_getElem? (lookup_eq_some.mp ha))
  cases congrArg Slot.occupant this

theorem mem_values : a ∈ values t ↔ ∃ h, lookup t h = some a := by
  rw [values, mem_filterMap]
  constructor
  · rintro ⟨s, hs, ha⟩
    obtain ⟨i, hi⟩ := mem_iff_getElem?.mp hs
    exact ⟨⟨i, s.generation⟩, lookup_eq_some.mpr (by rw [hi, ← ha])⟩
  · rintro ⟨h, hl⟩
    exact ⟨_, mem_of_getElem? (lookup_eq_some.mp hl), rfl⟩

theorem any_values_eq_false {p : α → Bool} :
    (values t).any p = false ↔ ∀ h a, lookup t h = some a → p a = false := by
  rw [any_eq_false]
  constructor
  · intro hall h a hl
    exact Bool.not_eq_true _ ▸ hall a (mem_values.mpr ⟨h, hl⟩)
  · intro hall a ha
    obtain ⟨h, hl⟩ := mem_values.mp ha
    exact Bool.not_eq_true _ ▸ hall h a hl

theorem isOpen_iff {s : Slot α} : s.isOpen = true ↔
    s.occupant = none ∧ s.generation.toNat + 1 < 2 ^ 32 := by
  have hlt := s.generation.toNat_lt
  have hmax : s.generation = 0xffffffff ↔ s.generation.toNat = 2 ^ 32 - 1 :=
    UInt32.toNat_inj.symm
  rw [Slot.isOpen, Bool.and_eq_true, Option.isNone_iff_eq_none, bne_iff_ne, Ne, hmax]
  refine and_congr_right fun _ => ?_
  omega

/-- The vacancy is an empty slot of a lower generation. -/
theorem vacancy_eq_some (hv : vacancy t = some h) : ∃ s, t[h.slot]? = some s ∧
    s.occupant = none ∧ h.generation.toNat = s.generation.toNat + 1 := by
  obtain ⟨i, hi, hs⟩ := Option.bind_eq_some_iff.mp hv
  obtain ⟨s, hget, rfl⟩ := Option.map_eq_some_iff.mp hs
  obtain ⟨hlt, hopen, -⟩ := findIdx?_eq_some_iff_getElem.mp hi
  rw [(List.getElem?_eq_some_iff.mp hget).2] at hopen
  obtain ⟨hnone, hgen⟩ := isOpen_iff.mp hopen
  exact ⟨s, hget, hnone, Nat.mod_eq_of_lt hgen⟩

theorem lookup_vacancy (hv : vacancy t = some h) : lookup t h = none := by
  obtain ⟨s, hs, -, hgen⟩ := vacancy_eq_some hv
  refine lookup_eq_none_of_ne hs fun he => ?_
  rw [he] at hgen
  omega

/-- What may be filled in a table: the vacancy, or again a slot that is occupied. -/
def Fillable (t : Table α) (h : Handle) : Prop :=
  vacancy t = some h ∨ ∃ a, lookup t h = some a

theorem Fillable.slot (hf : Fillable t h) : ∃ s, t[h.slot]? = some s ∧
    (s.occupant = none ∧ s.generation.toNat < h.generation.toNat ∨
      s.occupant ≠ none ∧ s.generation = h.generation) := by
  rcases hf with hv | ⟨a, hl⟩
  · obtain ⟨s, hs, hnone, hgen⟩ := vacancy_eq_some hv
    exact ⟨s, hs, .inl ⟨hnone, by omega⟩⟩
  · exact ⟨_, lookup_eq_some.mp hl, .inr ⟨Option.some_ne_none a, rfl⟩⟩

/-- **Filling changes one handle.** -/
theorem lookup_fill (hf : Fillable t h) (a : α) (k : Handle) :
    lookup (fill t h a) k = if k = h then some a else lookup t k := by
  obtain ⟨s, hs, hold⟩ := hf.slot
  obtain ⟨hlt, -⟩ := List.getElem?_eq_some_iff.mp hs
  by_cases hslot : k.slot = h.slot
  · have hset : (fill t h a)[k.slot]? = some ⟨h.generation, some a⟩ := by
      rw [hslot, fill, List.getElem?_set_self hlt]
    by_cases hgen : k.generation = h.generation
    · have hk : k = h := Handle.ext hslot hgen
      rw [if_pos hk, lookup_eq_some, hset, hgen]
    · have hk : k ≠ h := fun he => hgen (he ▸ rfl)
      rw [if_neg hk, lookup_eq_none_of_ne hset (Ne.symm hgen)]
      symm
      rcases hold with ⟨hnone, -⟩ | ⟨-, hsame⟩
      · simp [lookup, hslot, hs, hnone]
      · exact lookup_eq_none_of_ne (hslot ▸ hs) (hsame ▸ Ne.symm hgen)
  · have hk : k ≠ h := fun he => hslot (he ▸ rfl)
    rw [if_neg hk, lookup, lookup, fill, getElem?_set_ne (Ne.symm hslot)]

theorem lookup_fill_eq_some (hf : Fillable t h) {a b : α} {k : Handle} :
    lookup (fill t h a) k = some b ↔ k = h ∧ b = a ∨ k ≠ h ∧ lookup t k = some b := by
  rw [lookup_fill hf]
  by_cases hk : k = h <;> simp [hk, eq_comm]

/-- What holds of the new occupant and of the old ones holds of all. -/
theorem forall_lookup_fill (hf : Fillable t h) {P : Handle → α → Prop} (hnew : P h a)
    (hold : ∀ k b, lookup t k = some b → P k b) (k : Handle) (b : α)
    (hk : lookup (fill t h a) k = some b) : P k b := by
  rcases (lookup_fill_eq_some hf).mp hk with ⟨rfl, rfl⟩ | ⟨-, hk⟩
  · exact hnew
  · exact hold k b hk

/-- The same for pairs of occupants. -/
theorem pairwise_lookup_fill (hf : Fillable t h) {R : α → α → Prop}
    (hsymm : ∀ {b c}, R b c → R c b) (hnew : ∀ k b, lookup t k = some b → R b a)
    (hold : ∀ k l b c, k ≠ l → lookup t k = some b → lookup t l = some c → R b c)
    (k l : Handle) (b c : α) (hne : k ≠ l) (hk : lookup (fill t h a) k = some b)
    (hl : lookup (fill t h a) l = some c) : R b c := by
  rcases (lookup_fill_eq_some hf).mp hk with ⟨rfl, rfl⟩ | ⟨-, hk'⟩ <;>
    rcases (lookup_fill_eq_some hf).mp hl with ⟨rfl, rfl⟩ | ⟨-, hl'⟩
  · exact absurd rfl hne
  · exact hsymm (hnew l c hl')
  · exact hnew k b hk'
  · exact hold k l b c hne hk' hl'

/-- **Vacating changes one handle.** -/
theorem lookup_vacate (hl : lookup t h = some a) (k : Handle) :
    lookup (vacate t h) k = if k = h then none else lookup t k := by
  have hs := lookup_eq_some.mp hl
  by_cases hslot : k.slot = h.slot
  · have hset : (vacate t h)[k.slot]? = some ⟨h.generation, none⟩ := by
      rw [hslot, vacate, getElem?_modify_eq, hs]
      rfl
    have hnone : lookup (vacate t h) k = none := by
      simp [lookup, hset]
    by_cases hk : k = h
    · rw [if_pos hk, hnone]
    · have hgen : h.generation ≠ k.generation := fun he => hk (Handle.ext hslot he.symm)
      rw [if_neg hk, hnone, lookup_eq_none_of_ne (hslot ▸ hs) hgen]
  · have hk : k ≠ h := fun he => hslot (he ▸ rfl)
    rw [if_neg hk, lookup, lookup, vacate, getElem?_modify_ne _ _ (Ne.symm hslot)]

theorem lookup_vacate_eq_some (hl : lookup t h = some a) {b : α} {k : Handle} :
    lookup (vacate t h) k = some b ↔ k ≠ h ∧ lookup t k = some b := by
  rw [lookup_vacate hl]
  by_cases hk : k = h <;> simp [hk]

@[simp] theorem length_fill (t : Table α) (h : Handle) (a : α) : (fill t h a).length = t.length :=
  length_set ..

@[simp] theorem length_vacate (t : Table α) (h : Handle) : (vacate t h).length = t.length :=
  length_modify ..

theorem slot_lt_of_vacancy (hv : vacancy t = some h) : h.slot < t.length := by
  obtain ⟨s, hs, -, -⟩ := vacancy_eq_some hv
  exact (List.getElem?_eq_some_iff.mp hs).1

theorem slot_lt_of_lookup (hl : lookup t h = some a) : h.slot < t.length :=
  (List.getElem?_eq_some_iff.mp (lookup_eq_some.mp hl)).1

end Lookup

/-! ## How many handles are live -/

section Live

variable {t : Table α} {h : Handle} {a : α}

def live (t : Table α) : Set Handle := {h | ∃ a, lookup t h = some a}

theorem finite_live (t : Table α) : (live t).Finite := by
  refine ((Finset.range t.length).finite_toSet.image fun i =>
    (⟨i, (t.getD i ⟨0, none⟩).generation⟩ : Handle)).subset ?_
  rintro h ⟨a, hl⟩
  refine ⟨h.slot, by simpa using slot_lt_of_lookup hl, ?_⟩
  dsimp only
  rw [getD_eq_getElem?_getD, lookup_eq_some.mp hl]
  rfl

theorem live_empty (n : Nat) : live (empty α n) = ∅ := by
  simp [live]

theorem live_fill (hf : Fillable t h) (a : α) : live (fill t h a) = insert h (live t) := by
  ext k
  simp only [live, lookup_fill hf, Set.mem_ofPred_eq, Set.mem_insert_iff]
  by_cases hk : k = h
  · simp [hk]
  · simp [hk]

theorem live_vacate (hl : lookup t h = some a) : live (vacate t h) = live t \ {h} := by
  ext k
  simp only [live, lookup_vacate hl, Set.mem_ofPred_eq, Set.mem_sdiff, Set.mem_singleton_iff]
  by_cases hk : k = h
  · simp [hk]
  · simp [hk]

theorem ncard_live_fill (hv : vacancy t = some h) (a : α) :
    (live (fill t h a)).ncard = (live t).ncard + 1 := by
  have hnot : h ∉ live t := by
    rintro ⟨b, hb⟩
    rw [lookup_vacancy hv] at hb
    cases hb
  rw [live_fill (.inl hv), Set.ncard_insert_of_notMem hnot (finite_live t)]

theorem ncard_live_vacate (hl : lookup t h = some a) :
    (live (vacate t h)).ncard + 1 = (live t).ncard := by
  rw [live_vacate hl]
  exact Set.ncard_sdiff_singleton_add_one ⟨a, hl⟩ (finite_live t)

end Live

/-! ## The life of a handle -/

section Evolves

variable {t t' t'' : Table α} {h : Handle} {a : α}

/-- What a table can become: generations do not fall, and an empty slot is filled only under a
higher generation. -/
def Evolves (t t' : Table α) : Prop :=
  ∀ (i : Nat) (s : Slot α), t[i]? = some s → ∃ s' : Slot α, t'[i]? = some s' ∧
    (s.generation.toNat < s'.generation.toNat ∨
    s.generation = s'.generation ∧ (s.occupant = none → s'.occupant = none))

theorem Evolves.refl (t : Table α) : Evolves t t := fun _ s hs => ⟨s, hs, .inr ⟨rfl, id⟩⟩

theorem Evolves.trans (h₁ : Evolves t t') (h₂ : Evolves t' t'') : Evolves t t'' := by
  intro i s hs
  obtain ⟨s', hs', hcase⟩ := h₁ i s hs
  obtain ⟨s'', hs'', hcase'⟩ := h₂ i s' hs'
  refine ⟨s'', hs'', ?_⟩
  rcases hcase with hlt | ⟨heq, hnone⟩
  · exact .inl (hcase'.elim hlt.trans fun h => h.1 ▸ hlt)
  · rcases hcase' with hlt | ⟨heq', hnone'⟩
    · exact .inl (heq ▸ hlt)
    · exact .inr ⟨heq.trans heq', hnone' ∘ hnone⟩

theorem evolves_fill (hf : Fillable t h) (a : α) : Evolves t (fill t h a) := by
  intro i s hs
  obtain ⟨old, hold, hcase⟩ := hf.slot
  by_cases hi : i = h.slot
  · subst hi
    obtain rfl : old = s := Option.some_inj.mp (hold.symm.trans hs)
    refine ⟨⟨h.generation, some a⟩, List.getElem?_set_self (List.getElem?_eq_some_iff.mp hs).1, ?_⟩
    rcases hcase with ⟨-, hlt⟩ | ⟨hsome, heq⟩
    · exact .inl hlt
    · exact .inr ⟨heq, fun hnone => absurd hnone hsome⟩
  · exact ⟨s, by rw [fill, getElem?_set_ne (Ne.symm hi), hs], .inr ⟨rfl, id⟩⟩

theorem evolves_vacate (t : Table α) (h : Handle) : Evolves t (vacate t h) := by
  intro i s hs
  by_cases hi : i = h.slot
  · subst hi
    refine ⟨{ s with occupant := none }, ?_, .inr ⟨rfl, fun _ => rfl⟩⟩
    rw [vacate, getElem?_modify_eq, hs]
    rfl
  · exact ⟨s, by rw [vacate, getElem?_modify_ne _ _ (Ne.symm hi), hs], .inr ⟨rfl, id⟩⟩

/-- **A dead handle stays dead.** -/
theorem Evolves.lookup_eq_none (h₁ : Evolves t t') (h₂ : Evolves t' t'')
    (hlive : lookup t h = some a) (hdead : lookup t' h = none) : lookup t'' h = none := by
  obtain ⟨s', hs', hcase⟩ := h₁ _ _ (lookup_eq_some.mp hlive)
  obtain ⟨s'', hs'', hcase'⟩ := h₂ _ _ hs'
  have hne : ∀ {g : UInt32}, h.generation.toNat < g.toNat → g ≠ h.generation :=
    fun hlt he => absurd (he ▸ hlt) (Nat.lt_irrefl _)
  rcases hcase with hlt | ⟨heq, -⟩
  · exact lookup_eq_none_of_ne hs'' (hne (hcase'.elim hlt.trans fun h => h.1 ▸ hlt))
  · have heq : h.generation = s'.generation := heq
    have hnone : s'.occupant = none := by
      rw [lookup, hs', Option.bind_some, if_pos heq.symm] at hdead
      exact hdead
    rcases hcase' with hlt | ⟨heq', hnone'⟩
    · exact lookup_eq_none_of_ne hs'' (hne (heq ▸ hlt))
    · rw [lookup, hs'', Option.bind_some, if_pos (heq.trans heq').symm]
      exact hnone' hnone

end Evolves

end Sisyphus.Slots
