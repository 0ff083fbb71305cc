import Sisyphus.Foundation.Ensures
import Sisyphus.Alchemist.Search
import Sisyphus.Alchemist.Builder

/-!
# How resolution depends on the order of the requests

A builder `Represents` a formula when its variables are the package versions of the formula in the
order of their first mention, and its clauses are the formula over them.  Every accepted call
extends the formula by the clauses of its request, and a refused one leaves the builder as it was
(`Request.issue_spec`); whether all calls are accepted depends on how many versions and clauses
there are, not on their order (`Fits`).

The models of the clauses are the selections that meet the requests, so the verdict does not depend
on the order either.  The selection does: it is the least one *in the order of first mention*.
-/

set_option autoImplicit false

namespace Sisyphus.Alchemist

open Cnf (Lit Models)
open Fallible List

/-! ## First mentions -/

section FirstMention

variable {α : Type} [BEq α] [LawfulBEq α] {l l' : List α} {a : α}

theorem eraseDups_concat_of_mem (h : a ∈ l.eraseDups) : (l ++ [a]).eraseDups = l.eraseDups := by
  rw [mem_eraseDups] at h
  rw [eraseDups_append]
  simp [removeAll, h]

theorem eraseDups_concat_of_notMem (h : a ∉ l.eraseDups) :
    (l ++ [a]).eraseDups = l.eraseDups ++ [a] := by
  rw [mem_eraseDups] at h
  rw [eraseDups_append]
  simp [removeAll, h, eraseDups_cons]

theorem eraseDups_of_isPrefix (h : l <+: l') : l.eraseDups <+: l'.eraseDups := by
  obtain ⟨rest, rfl⟩ := h
  rw [eraseDups_append]
  exact prefix_append _ _

end FirstMention

/-! ## Formulas over package versions -/

/-- A disjunction of package versions, present or absent. -/
abbrev PkgClause := List (PkgKey × Bool)

def mentioned (formula : List PkgClause) : List PkgKey := formula.flatten.map Prod.fst

/-- There are variables and clauses enough for the formula. -/
def Fits (formula : List PkgClause) : Prop :=
  (mentioned formula).eraseDups.length ≤ maxPackages ∧ formula.length ≤ maxClauses

theorem Fits.of_prefix {formula more : List PkgClause} (h : Fits (formula ++ more)) :
    Fits formula := by
  rw [Fits, mentioned, flatten_append, map_append, length_append] at h
  have hpre := eraseDups_of_isPrefix (prefix_append (mentioned formula) (mentioned more))
  exact ⟨hpre.length_le.trans h.1, by omega⟩

namespace Request

variable {versions : List UInt16} {v w : UInt16}

end Request

/-! ## What the builder represents -/

theorem exists_related {α β : Type} {R : α → β → Prop} {l : List α} {l' : List β}
    (h : List.Forall₂ R l l') {a : α} (ha : a ∈ l) : ∃ b ∈ l', R a b := by
  induction h with
  | nil => exact absurd ha not_mem_nil
  | cons hab hrest ih =>
    rcases mem_cons.mp ha with rfl | ha
    · exact ⟨_, mem_cons_self, hab⟩
    · obtain ⟨b, hb, hab⟩ := ih ha
      exact ⟨b, mem_cons_of_mem _ hb, hab⟩

/-- A clause over the variables of `keys` spells out the package versions of `lits`. -/
def Encodes (keys : List PkgKey) (clause : Clause) (lits : PkgClause) : Prop :=
  List.Forall₂ (fun lit pkg => keys[lit.var]? = some pkg.1 ∧ lit.sign = pkg.2) clause lits

variable {lits : PkgClause} {keys : List PkgKey} {clause : Clause}

theorem Encodes.of_prefix {keys' : List PkgKey} (h : Encodes keys clause lits)
    (hpre : keys <+: keys') : Encodes keys' clause lits := by
  obtain ⟨rest, rfl⟩ := hpre
  refine List.Forall₂.imp ?_ h
  rintro lit pkg ⟨hkey, hsign⟩
  have hlt := (List.getElem?_eq_some_iff.mp hkey).1
  exact ⟨by rwa [List.getElem?_append_left hlt], hsign⟩

variable {r : VariableRegistry}

namespace ConstraintBuilder

variable {b b' : ConstraintBuilder} {formula : List PkgClause} {pending : PkgClause}
variable {clause : Clause}

/-- The builder holds the formula, and has interned the literals of a clause in the making. -/
structure Represents (b : ConstraintBuilder) (formula : List PkgClause) (pending : PkgClause) :
    Prop where
  keys : b.registry.keys = (mentioned formula ++ pending.map Prod.fst).eraseDups
  encoded : List.Forall₂ (Encodes b.registry.keys) b.solver.clauses formula

/-- `b'` is `b` with variables and clauses added. -/
structure Extends (b b' : ConstraintBuilder) : Prop where
  vars : b.registry.vars <+: b'.registry.vars
  clauses : b.solver.clauses <+: b'.solver.clauses
  rest : b'.solver = { b.solver with toClauseStore := b'.solver.toClauseStore }

theorem Extends.refl (b : ConstraintBuilder) : Extends b b := ⟨prefix_rfl, prefix_rfl,
    rfl⟩

theorem Extends.trans {b'' : ConstraintBuilder} (h : Extends b b') (h' : Extends b' b'') :
    Extends b b'' := by
  refine ⟨h.vars.trans h'.vars, h.clauses.trans h'.clauses, ?_⟩
  have := h'.rest
  rw [h.rest] at this
  exact this

theorem represents_new : Represents .new [] [] := ⟨rfl, .nil⟩

/-- The formula of a builder has room in its tables. -/
theorem Represents.fits (h : Represents b formula []) : Fits formula := by
  have hkeys := h.keys
  rw [map_nil, append_nil] at hkeys
  refine ⟨?_, h.encoded.length_eq ▸ b.solver.capacity⟩
  rw [← hkeys, VariableRegistry.keys, length_map]
  exact b.registry.capacity

theorem intern_eq_none {key : PkgKey} (h : r.intern key = none) :
    key ∉ r.keys ∧ maxPackages ≤ r.keys.length := by
  rw [VariableRegistry.intern] at h
  split at h
  case isTrue => exact absurd h (by simp)
  case isFalse hknown =>
    split at h
    case isTrue hfull => exact ⟨hknown, by rwa [VariableRegistry.keys, length_map]⟩
    case isFalse => exact absurd h (by simp)

theorem intern_eq_some {r' : VariableRegistry} {key : PkgKey} {var : Nat}
    (h : r.intern key = some (var, r')) :
    r.vars <+: r'.vars ∧ r'.keys[var]? = some key ∧
      ((key ∈ r.keys ∧ r'.keys = r.keys) ∨ (key ∉ r.keys ∧ r'.keys = r.keys ++ [key])) := by
  rw [VariableRegistry.intern] at h
  split at h
  case isTrue hknown =>
    obtain ⟨rfl, rfl⟩ := Prod.mk.inj (Option.some.inj h)
    refine ⟨prefix_rfl, ?_, .inl ⟨hknown, rfl⟩⟩
    rw [getElem?_eq_getElem (idxOf_lt_length_of_mem hknown), getElem_idxOf]
  case isFalse hknown =>
    split at h
    case isTrue => exact absurd h (by simp)
    case isFalse =>
      obtain ⟨rfl, rfl⟩ := Prod.mk.inj (Option.some.inj h)
      refine ⟨prefix_append _ _, ?_, .inr ⟨hknown, ?_⟩⟩
      · simp [VariableRegistry.keys, PkgVar.key]
      · simp [VariableRegistry.keys, PkgVar.key]

/-- Interning a literal either finds or adds its package version, or there are too many. -/
theorem ensures_literal (h : Represents b formula pending)
    (hclause : Encodes b.registry.keys clause pending) (hroom : clause.length < maxClauseLen)
    (lit : PkgKey × Bool) :
    Ensures (literal clause lit) b (fun clause' b' => Represents b' formula (pending ++ [lit]) ∧
        Encodes b'.registry.keys clause' (pending ++ [lit]))
      (fun _ _ => maxPackages <
        (mentioned formula ++ (pending ++ [lit]).map Prod.fst).eraseDups.length) := by
  have hmentions : mentioned formula ++ (pending ++ [lit]).map Prod.fst =
      (mentioned formula ++ pending.map Prod.fst) ++ [lit.1] := by simp
  simp only [literal, intern, ensures_rules]
  refine ⟨fun hnone => ?_, ?_⟩
  · obtain ⟨hnew, hfull⟩ := intern_eq_none hnone
    rw [h.keys] at hnew hfull
    rw [hmentions, eraseDups_concat_of_notMem hnew, length_append]
    exact Nat.lt_succ_of_le hfull
  · rintro ⟨var, registry⟩ hsome
    obtain ⟨hvars, hvar, hkeys⟩ := intern_eq_some hsome
    have hpre : b.registry.keys <+: registry.keys := hvars.map PkgVar.key
    have hall : registry.keys =
        (mentioned formula ++ (pending ++ [lit]).map Prod.fst).eraseDups := by
      rw [hmentions]
      rcases hkeys with ⟨hmem, heq⟩ | ⟨hmem, heq⟩
      · rw [h.keys] at hmem heq
        rw [eraseDups_concat_of_mem hmem, heq]
      · rw [h.keys] at hmem heq
        rw [eraseDups_concat_of_notMem hmem, heq]
    have hpush : clause.push ⟨var, lit.2⟩ = some (clause ++ [⟨var, lit.2⟩]) := by
      rw [Clause.push, if_neg (Nat.not_le.mpr hroom)]
    simp only [hpush, reduceCtorEq, false_implies, true_and, Option.some.injEq, forall_eq']
    refine ⟨⟨hall, h.encoded.imp fun _ _ henc => henc.of_prefix hpre⟩, ?_⟩
    exact rel_append (hclause.of_prefix hpre) (.cons ⟨hvar, rfl⟩ .nil)

theorem ensures_addClause (h : Represents b formula pending)
    (hclause : Encodes b.registry.keys clause pending) (hshort : pending.length ≤ maxClauseLen) :
    Ensures (addClause clause) b (fun _ b' => Represents b' (formula ++ [pending]) [])
      (fun _ _ => maxClauses < (formula ++ [pending]).length) := by
  have hlen : clause.length = pending.length := hclause.length_eq
  have hrange : ∀ lit ∈ clause, lit.var < maxPackages := by
    intro lit hlit
    obtain ⟨pkg, -, hkey, -⟩ := exists_related hclause hlit
    have hlt := (List.getElem?_eq_some_iff.mp hkey).1
    rw [VariableRegistry.keys, List.length_map] at hlt
    exact hlt.trans_le b.registry.capacity
  simp only [addClause, ensures_rules, DpllSolver.addClause, ClauseStore.addClause]
  by_cases hrefuses : b.solver.Refuses clause
  · simp only [dif_pos hrefuses, Bool.not_false, forall_true_left, reduceCtorEq, false_implies,
      and_true]
    rcases hrefuses with hfull | hlong | ⟨lit, hlit, hge⟩
    · rw [h.encoded.length_eq] at hfull
      rw [length_append]
      exact Nat.lt_succ_of_le hfull
    · omega
    · exact absurd (hrange lit hlit) (Nat.not_lt.mpr hge)
  · simp only [dif_neg hrefuses, Bool.not_true, Bool.false_eq_true, false_implies, true_and,
      forall_true_left]
    refine ⟨?_, rel_append h.encoded (.cons hclause .nil)⟩
    simpa [mentioned] using h.keys

/-! ## What a call has added is cut off again -/

/-- The computation only adds to the builder, also when it fails. -/
def Grows {α : Type} (x : Posting α) : Prop :=
  ∀ b, Ensures x b (fun _ b' => Extends b b') fun _ b' => Extends b b'

theorem Grows.after {α : Type} {x : Posting α} (hx : Grows x) (h : Extends b b') :
    Ensures x b' (fun _ b'' => Extends b b'') fun _ b'' => Extends b b'' :=
  (hx b').mono (fun _ _ => h.trans) fun _ _ => h.trans

theorem Grows.bind {α β : Type} {x : Posting α} {f : α → Posting β} (hx : Grows x)
    (hf : ∀ a, Grows (f a)) : Grows (x >>= f) := by
  intro b
  rw [ensures_bind]
  exact (hx b).imp_ok fun a _ => (hf a).after

theorem grows_literal (clause : Clause) (lit : PkgKey × Bool) : Grows (literal clause lit) := by
  intro b
  simp only [literal, intern, ensures_rules]
  refine ⟨fun _ => .refl b, ?_⟩
  rintro ⟨var, registry⟩ hsome
  have hext : Extends b { b with registry := registry } :=
    ⟨(intern_eq_some hsome).1, prefix_rfl, rfl⟩
  exact ⟨fun _ => hext, fun _ _ => hext⟩

theorem grows_addClause (clause : Clause) : Grows (addClause clause) := by
  intro b
  simp only [addClause, ensures_rules, DpllSolver.addClause, ClauseStore.addClause]
  by_cases hrefuses : b.solver.Refuses clause
  · simp only [dif_pos hrefuses]
    exact ⟨fun _ => .refl b, fun _ => .refl b⟩
  · simp only [dif_neg hrefuses]
    have hext := prefix_append b.solver.clauses [clause]
    exact ⟨fun _ => ⟨prefix_rfl, hext, rfl⟩, fun _ => ⟨prefix_rfl, hext, rfl⟩⟩

theorem grows_post (lits : PkgClause) : Grows (post lits) := by
  refine Grows.bind (fun b => ?_) grows_addClause
  refine ensures_foldlM (I := fun _ _ b' => Extends b b') (.refl b) ?_
  exact fun _ lit _ _ clause _ => (grows_literal clause lit).after

theorem grows_exclude (hash : UInt64) (versions : List UInt16) : Grows (exclude hash versions) := by
  induction versions with
  | nil => exact fun b => .refl b
  | cons version rest ih =>
    refine Grows.bind (fun b => ?_) fun _ => ih
    exact ensures_forM (I := Extends b) (.refl b) fun _ _ _ => (grows_post _).after

/-- The computation adds the clauses in `more`, or they do not fit; it takes nothing away. -/
def Posts (x : Posting Unit) (b : ConstraintBuilder) (formula more : List PkgClause) : Prop :=
  Ensures x b (fun _ b' => Represents b' (formula ++ more) [] ∧ Extends b b')
    fun _ b' => Extends b b' ∧ ¬ Fits (formula ++ more)

theorem Posts.bind {x y : Posting Unit} {first more : List PkgClause} (hx : Posts x b formula first)
    (hy : ∀ b', Represents b' (formula ++ first) [] → Posts y b' (formula ++ first) more) :
    Posts (x >>= fun _ => y) b formula (first ++ more) := by
  rw [Posts, ← append_assoc, ensures_bind]
  refine hx.mono ?_ ?_
  · rintro _ b' ⟨hrep, hext⟩
    exact (hy b' hrep).mono (fun _ _ h => ⟨h.1, hext.trans h.2⟩) fun _ _ h => ⟨hext.trans h.1, h.2⟩
  · rintro _ b' ⟨hext, hfits⟩
    exact ⟨hext, fun hall => hfits hall.of_prefix⟩

theorem Posts.nil (h : Represents b formula []) : Posts (pure ()) b formula [] := by
  rw [Posts, append_nil]
  exact ⟨h, .refl b⟩

/-- A clause is posted, or there are too many package versions or clauses. -/
theorem posts_post (h : Represents b formula [])
    (hshort : lits.length ≤ maxClauseLen) : Posts (post lits) b formula [lits] := by
  have hloop : Ensures (lits.foldlM literal []) b
      (fun clause b' => Represents b' formula lits ∧ Encodes b'.registry.keys clause lits)
      (fun _ _ => ¬ Fits (formula ++ [lits])) := by
    refine ensures_foldlM (I := fun done clause b' => Represents b' formula done ∧
      Encodes b'.registry.keys clause done) ⟨h, .nil⟩ ?_
    rintro done lit rest rfl clause b' ⟨hrep, henc⟩
    have hroom : clause.length < maxClauseLen := by
      rw [henc.length_eq]
      rw [length_append, length_cons] at hshort
      omega
    refine (ensures_literal hrep henc hroom lit).imp_error fun _ _ hmany hfits => ?_
    have hpre : mentioned formula ++ (done ++ [lit]).map Prod.fst <+:
        mentioned (formula ++ [done ++ lit :: rest]) :=
      ⟨rest.map Prod.fst, by simp [mentioned]⟩
    have := (eraseDups_of_isPrefix hpre).length_le.trans hfits.1
    omega
  have hpost : Ensures (post lits) b (fun _ b' => Represents b' (formula ++ [lits]) [])
      (fun _ _ => ¬ Fits (formula ++ [lits])) := by
    rw [post, ensures_bind]
    refine hloop.imp_ok ?_
    rintro clause b' ⟨hrep, henc⟩
    exact (ensures_addClause hrep henc hshort).imp_error fun _ _ hmany hfits =>
      absurd hfits.2 (Nat.not_le.mpr hmany)
  exact (hpost.and (grows_post lits b)).imp_error fun _ _ h => h.symm

/-- A sequence of clauses is posted, or they do not all fit. -/
theorem posts_forM {α : Type} (g : α → PkgClause) {l : List α} (h : Represents b formula [])
    (hshort : ∀ x, (g x).length ≤ maxClauseLen) :
    Posts (forM l fun x => post (g x)) b formula (l.map g) := by
  induction l generalizing b formula with
  | nil => exact .nil h
  | cons x rest ih =>
    rw [forM_cons]
    exact (posts_post h (hshort x)).bind fun _ => ih

/-- The clauses that exclude each two of the versions. -/
def exclusions (hash : UInt64) (versions : List UInt16) : List PkgClause :=
  (Request.pairs versions).map fun pair => [((hash, pair.1), false), ((hash, pair.2), false)]

theorem posts_exclude (hash : UInt64) {versions : List UInt16} (h : Represents b formula []) :
    Posts (exclude hash versions) b formula (exclusions hash versions) := by
  induction versions generalizing b formula with
  | nil => exact .nil h
  | cons version rest ih =>
    have hsplit : exclusions hash (version :: rest) =
        (rest.map fun other => [((hash, version), false), ((hash, other), false)]) ++
          exclusions hash rest := by
      simp [exclusions, Request.pairs]
    rw [hsplit, exclude]
    exact (posts_forM _ h fun _ => by simp [maxClauseLen]).bind fun _ => ih

/-- The clauses determine the table. -/
theorem store_ext {store store' : ClauseStore} (h : store.clauses = store'.clauses) :
    store = store' := by
  obtain ⟨clauses, active, _, _, hactive, _⟩ := store
  obtain ⟨clauses', active', _, _, hactive', _⟩ := store'
  obtain rfl : clauses = clauses' := h
  obtain rfl : active = active' := funext fun v =>
    Bool.eq_iff_iff.mpr ((hactive v).trans (hactive' v).symm)
  rfl

theorem clauses_truncateClauses (store : ClauseStore) (count : Nat) :
    (store.truncateClauses count).clauses = store.clauses.take count := by
  rw [ClauseStore.truncateClauses]
  split
  case isTrue h => exact (take_of_length_le h).symm
  case isFalse => rfl

/-- Cutting the tables back undoes what a call has added. -/
theorem Extends.cut_back (h : Extends b b') :
    ConstraintBuilder.mk (b'.solver.truncateClauses b.solver.clauses.length)
      (b'.registry.truncate b.registry.vars.length) = b := by
  have hstore : b'.solver.toClauseStore.truncateClauses b.solver.clauses.length =
      b.solver.toClauseStore := by
    refine store_ext ?_
    rw [clauses_truncateClauses, ← prefix_iff_eq_take.mp h.clauses]
  have hregistry : b'.registry.truncate b.registry.vars.length = b.registry := by
    have hvars := prefix_iff_eq_take.mp h.vars
    simp only [VariableRegistry.truncate, ← hvars]
  rw [DpllSolver.truncateClauses, hstore, hregistry, h.rest]

/-- A call is accepted and adds its clauses, or is refused without a trace. -/
theorem transact_spec {body : Posting Unit} {more : List PkgClause}
    (h : Posts body b formula more) :
    ((b.transact body).1 = true ∧ Represents (b.transact body).2 (formula ++ more) []) ∨
      (b.transact body = (false, b) ∧ ¬ Fits (formula ++ more)) := by
  rw [transact]
  rcases h.cases with ⟨_, b', hrun, hrep, _⟩ | ⟨_, b', hrun, hext, hfits⟩
  · rw [hrun]
    exact .inl ⟨rfl, hrep⟩
  · rw [hrun]
    exact .inr ⟨congrArg (Prod.mk false) hext.cut_back, hfits⟩

end ConstraintBuilder

/-! ## Issuing requests -/

namespace Request

open ConstraintBuilder (Represents Posts Grows post exclude posts_post posts_exclude grows_post
  grows_exclude transact transact_spec)

variable {b : ConstraintBuilder} {formula : List PkgClause} {requests requests' : List Request}

/-- What a call does once its arguments have passed. -/
def body : Request → Posting Unit
  | .require name ver => post [((fnv1a name, ver), true)]
  | .dependency a va b vbOptions =>
    post (((fnv1a a, va), false) ::
      vbOptions.reverse.map fun version => ((fnv1a b, version), true))
  | .conflict a va b vb => post [((fnv1a a, va), false), ((fnv1a b, vb), false)]
  | .atMostOneVersion name versions => exclude (fnv1a name) versions

variable {request : Request}

theorem issue_of_valid (h : request.Valid) : request.issue b = b.transact request.body := by
  cases request with
  | require name ver | conflict a va b' vb => rfl
  | dependency a va b' vbOptions =>
    obtain ⟨hne, hlen, hinc⟩ := h
    rw [issue, ConstraintBuilder.dependency, if_neg, body]
    simp [hne, hlen, hinc]
  | atMostOneVersion name versions =>
    have hinc : strictlyIncreasing versions = true := h
    rw [issue, ConstraintBuilder.atMostOneVersion, if_neg, body]
    simp [hinc]

theorem issue_of_not_valid (h : ¬ request.Valid) : request.issue b = (false, b) := by
  cases request with
  | require name ver | conflict a va b' vb => exact absurd trivial h
  | dependency a va b' vbOptions =>
    rw [issue, ConstraintBuilder.dependency, if_pos]
    simp only [Valid, not_and, Bool.not_eq_true] at h
    by_cases hne : vbOptions = []
    · simp [hne]
    · by_cases hlen : vbOptions.length < maxClauseLen
      · simp [h hne hlen]
      · simp [Nat.not_lt.mp hlen]
  | atMostOneVersion name versions =>
    have hinc : strictlyIncreasing versions = false := by simpa [Valid] using h
    rw [issue, ConstraintBuilder.atMostOneVersion, if_pos]
    simp [hinc]

theorem posts_body (h : Represents b formula []) (hvalid : request.Valid) :
    Posts request.body b formula request.formula := by
  cases request with
  | require name ver | conflict a va b' vb => exact posts_post h (by simp [maxClauseLen])
  | dependency a va b' vbOptions =>
    refine posts_post h ?_
    rw [length_cons, length_map, length_reverse]
    exact hvalid.2.1
  | atMostOneVersion name versions => exact posts_exclude (fnv1a name) h

/-- A request is accepted and adds its clauses, or is refused and leaves the builder as it was. -/
theorem issue_spec (h : Represents b formula []) (request : Request) :
    (request.Valid ∧ (request.issue b).1 = true ∧
      Represents (request.issue b).2 (formula ++ request.formula) []) ∨
    (request.issue b = (false, b) ∧ ¬ (request.Valid ∧ Fits (formula ++ request.formula))) := by
  by_cases hvalid : request.Valid
  · rw [issue_of_valid hvalid]
    refine (transact_spec (posts_body h hvalid)).imp (fun hok => ⟨hvalid, hok⟩) ?_
    exact fun herr => ⟨herr.1, fun hall => herr.2 hall.2⟩
  · exact .inr ⟨issue_of_not_valid hvalid, fun hall => hvalid hall.1⟩

theorem grows_body (request : Request) : Grows request.body := by
  cases request with
  | require name ver | dependency a va b vbOptions | conflict a va b vb => exact grows_post _
  | atMostOneVersion name versions => exact grows_exclude _ _

theorem issue_refused (h : (request.issue b).1 = false) : (request.issue b).2 = b := by
  by_cases hvalid : request.Valid
  · rw [issue_of_valid hvalid, transact] at h ⊢
    rcases (grows_body request b).cases with ⟨_, b', hrun, _⟩ | ⟨_, b', hrun, hext⟩
    · rw [hrun] at h
      exact absurd h Bool.false_ne_true.symm
    · rw [hrun]
      exact hext.cut_back
  · rw [issue_of_not_valid hvalid]

theorem issueAll_append (b : ConstraintBuilder) (requests later : List Request) :
    (issueAll b (requests ++ later)).2 = (issueAll (issueAll b requests).2 later).2 := by
  induction requests generalizing b with
  | nil => rfl
  | cons request rest ih => exact ih (request.issue b).2

/-- **A call that fails leaves no trace.**  Whatever the builder holds, and wherever in its clauses
the call ran out of variables, clauses or literals, the builder is what it was before the call; so
later calls find the same builder, and the solver the same formula. -/
theorem failed_call_leaves_no_trace (b : ConstraintBuilder) (request : Request)
    (h : (request.issue b).1 = false) :
    (request.issue b).2 = b ∧ (∀ later, (issueAll b (request :: later)).2 = (issueAll b later).2) ∧
      ∀ fuel before later, (issueAll .new before).2 = b →
        resolve fuel (before ++ request :: later) = resolve fuel (before ++ later) := by
  have hsame := issue_refused h
  have hlater : ∀ later, (issueAll b (request :: later)).2 = (issueAll b later).2 := fun later =>
    congrArg (fun b' => (issueAll b' later).2) hsame
  refine ⟨hsame, hlater, ?_⟩
  rintro fuel before later rfl
  rw [resolve, resolve, issueAll_append, issueAll_append, hlater]

/-- The pairs of 46 versions are more than there is room for: the call fails after 1024 clauses. -/
theorem many_versions_leave_no_trace :
    ((atMostOneVersion [] ((range 46).map UInt16.ofNat)).issue .new).1 = false ∧
      ((atMostOneVersion [] ((range 46).map UInt16.ofNat)).issue .new).2 = .new := by
  have hmany : ((atMostOneVersion [] ((range 46).map UInt16.ofNat)).issue .new).1 = false := by
    rcases issue_spec ConstraintBuilder.represents_new
      (atMostOneVersion [] ((range 46).map UInt16.ofNat)) with ⟨_, _, hrep⟩ | ⟨hrefused, _⟩
    · exact absurd hrep.fits.2 (by decide +kernel)
    · rw [hrefused]
  exact ⟨hmany, (failed_call_leaves_no_trace _ _ hmany).1⟩

/-- A selection read along a list of package versions. -/
def profile (keys : List PkgKey) (selection : PkgKey → Bool) (i : Nat) : Bool :=
  keys[i]?.any selection

variable {selection : PkgKey → Bool} {key : PkgKey}

theorem profile_of_getElem? {i : Nat} (h : keys[i]? = some key) :
    profile keys selection i = selection key := by
  rw [profile, h, Option.any_some]

/-- A selection meets all requests. -/
def Meets (selection : PkgKey → Bool) (requests : List Request) : Prop :=
  ∀ request ∈ requests, request.Holds selection

/-- The selection meets the requests, and reads as the least one that does along the package
versions in the order of their first mention, absence before presence. -/
structure LeastSelection (requests : List Request) (selection : PkgKey → Bool) : Prop where
  meets : Meets selection requests
  least : ∀ other, Meets other requests →
    toLex (profile (firstMentions requests) selection) ≤
      toLex (profile (firstMentions requests) other)
  mentioned : ∀ key, selection key = true → key ∈ firstMentions requests

/-- The least selection is determined by the order of the first mentions. -/
theorem LeastSelection.unique {selection' : PkgKey → Bool} (h : LeastSelection requests selection)
    (h' : LeastSelection requests' selection')
    (hmem : ∀ request, request ∈ requests ↔ request ∈ requests')
    (hmentions : firstMentions requests = firstMentions requests') : selection = selection' := by
  have hmeets : Meets selection requests' := fun r hr => h.meets r ((hmem r).mpr hr)
  have hmeets' : Meets selection' requests := fun r hr => h'.meets r ((hmem r).mp hr)
  have hprofile : profile (firstMentions requests) selection =
      profile (firstMentions requests) selection' := by
    refine toLex.injective (le_antisymm (h.least _ hmeets') ?_)
    rw [hmentions]
    exact h'.least _ hmeets
  funext key
  by_cases hkey : key ∈ firstMentions requests
  · obtain ⟨i, hi⟩ := mem_iff_getElem?.mp hkey
    have hat := congrFun hprofile i
    rwa [profile_of_getElem? hi, profile_of_getElem? hi] at hat
  · have hoff : selection key ≠ true := fun hon => hkey (h.mentioned key hon)
    have hoff' : selection' key ≠ true := fun hon => hkey (hmentions ▸ h'.mentioned key hon)
    rw [Bool.eq_false_of_not_eq_true hoff, Bool.eq_false_of_not_eq_true hoff']

end Request

end Sisyphus.Alchemist
