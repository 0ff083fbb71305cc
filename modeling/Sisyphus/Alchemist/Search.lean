import Sisyphus.Alchemist.Solver

/-!
# The solver finds the least model

The invariant of the search is that the assignment is what the trail says (`Coherent`) and that the
trail and the decisions are a path in the sense of the clause library (`Exploring`).  Each move of
the loop keeps it: a sweep forces only what follows, a conflict refutes the trail, `backtrack`
resumes at a decision whose negative side is thereby refuted, and a new decision takes the lowest
active variable.

The loop ends because the decisions, read as an odometer, only ever go up, and a call of
`propagate` ends because every sweep but the last puts a literal on a trail that holds no variable
twice.  For the same reason neither the trail nor the array of decisions fills up.
-/

set_option autoImplicit false

namespace Sisyphus.Alchemist

open Bool List Option

open Cnf (Lit Decision Models Agrees Refutes)

/-! ## What the status of a clause says -/

namespace Clause

variable {assignment : Nat → Option Bool} {clause : Clause} {lit : Lit Nat}

/-- The status of a clause without a true literal, from its unset ones. -/
def classify : List (Lit Nat) → ClauseStatus
  | [] => .conflict
  | [lit] => .unit lit
  | _ :: _ :: _ => .unresolved

/-- The unset literals of a clause. -/
def unset (assignment : Nat → Option Bool) (clause : Clause) : Clause :=
  clause.filter fun lit => (assignment lit.var).isNone

theorem mem_unset : lit ∈ clause.unset assignment ↔ lit ∈ clause ∧ assignment lit.var = none := by
  rw [unset, mem_filter, isNone_iff_eq_none]

theorem scan_eq (seen : List (Lit Nat)) :
    clause.scan assignment seen.length (seen.getLastD (Lit.pos 0)) =
      if ∃ lit ∈ clause, assignment lit.var = some lit.sign then .satisfied
      else classify (seen ++ clause.unset assignment) := by
  induction clause generalizing seen with
  | nil =>
    rcases seen with _ | ⟨first, _ | ⟨second, rest⟩⟩ <;> simp [scan, classify, unset]
  | cons lit rest ih =>
    rw [scan]
    cases hval : assignment lit.var with
    | none =>
      have := ih (seen ++ [lit])
      simpa [hval, unset] using this
    | some value =>
      by_cases hsign : value = lit.sign
      · simp [hval, hsign]
      · simpa [hval, hsign, unset] using ih seen

/-- The status of a clause, by its true and its unset literals. -/
theorem status_eq : clause.status assignment =
    if ∃ lit ∈ clause, assignment lit.var = some lit.sign then .satisfied
    else classify (clause.unset assignment) :=
  scan_eq []

theorem status_eq_satisfied : clause.status assignment = .satisfied ↔
    ∃ lit ∈ clause, assignment lit.var = some lit.sign := by
  rw [status_eq]
  split
  case isTrue htrue => exact iff_of_true rfl htrue
  case isFalse htrue =>
    refine iff_of_false ?_ htrue
    rcases clause.unset assignment with _ | ⟨first, _ | ⟨second, rest⟩⟩ <;> simp [classify]

/-- Without a true literal, each one is unset or false. -/
theorem unset_or_false (htrue : ¬ ∃ lit ∈ clause, assignment lit.var = some lit.sign)
    (hlit : lit ∈ clause) :
    lit ∈ clause.unset assignment ∨ assignment lit.var = some (!lit.sign) := by
  cases hval : assignment lit.var with
  | none => exact .inl (mem_unset.mpr ⟨hlit, hval⟩)
  | some value =>
    refine .inr (congrArg some (eq_not_of_ne fun hsign => htrue ⟨lit, hlit, ?_⟩))
    rw [hval, hsign]

theorem of_status_conflict (h : clause.status assignment = .conflict) (hlit : lit ∈ clause) :
    assignment lit.var = some (!lit.sign) := by
  rw [status_eq] at h
  split at h
  case isTrue => exact absurd h (by simp)
  case isFalse htrue =>
    refine (unset_or_false htrue hlit).resolve_left fun hmem => ?_
    rcases hunset : clause.unset assignment with _ | ⟨first, _ | ⟨second, rest⟩⟩ <;>
      simp [hunset, classify] at h hmem

theorem of_status_unit (h : clause.status assignment = .unit lit) :
    lit ∈ clause ∧ assignment lit.var = none ∧
      ∀ l ∈ clause, l = lit ∨ assignment l.var = some (!l.sign) := by
  rw [status_eq] at h
  split at h
  case isTrue => exact absurd h (by simp)
  case isFalse htrue =>
    have hunset : clause.unset assignment = [lit] := by
      rcases hunset : clause.unset assignment with _ | ⟨first, _ | ⟨second, rest⟩⟩ <;>
        simp_all [classify]
    obtain ⟨hmem, hnone⟩ := mem_unset.mp (hunset ▸ mem_singleton_self lit)
    refine ⟨hmem, hnone, fun l hl => (unset_or_false htrue hl).imp_left fun hl => ?_⟩
    rwa [hunset, mem_singleton] at hl

theorem of_status_unresolved (h : clause.status assignment = .unresolved) :
    ∃ lit ∈ clause, assignment lit.var = none := by
  rw [status_eq] at h
  split at h
  case isTrue => exact absurd h (by simp)
  case isFalse =>
    rcases hunset : clause.unset assignment with _ | ⟨first, _ | ⟨second, rest⟩⟩
    · simp [hunset, classify] at h
    · simp [hunset, classify] at h
    · exact ⟨first, mem_unset.mp (hunset ▸ mem_cons_self)⟩

end Clause

/-! ## The invariant -/

namespace DpllSolver

variable {s s' : DpllSolver} {frames : List (Decision Nat)} {lit : Lit Nat} {clause : Clause}

/-- The assignment is what the trail says, and the trail holds active variables, each once. -/
structure Coherent (s : DpllSolver) : Prop where
  assigned : ∀ v b, s.assignment v = some b ↔ Lit.mk v b ∈ s.trail
  distinct : (s.trail.map Lit.var).Nodup
  active : ∀ lit ∈ s.trail, s.activeVariables lit.var = true

/-- The search has made the decisions `frames`. -/
structure Exploring (s : DpllSolver) (frames : List (Decision Nat)) : Prop extends Coherent s where
  path : Cnf.Path s.clauses (fun v => s.activeVariables v = true) frames s.trail

variable {v : Nat} {fuel : Nat}

theorem active_lt (s : DpllSolver) (h : s.activeVariables v = true) :
    v < maxPackages := by
  obtain ⟨clause, hclause, lit, hlit, rfl⟩ := (s.active_iff v).mp h
  exact s.in_range clause hclause lit hlit

namespace Coherent

section

variable (h : Coherent s)
include h

theorem notMem_of_unset (hunset : s.assignment v = none) : v ∉ s.trail.map Lit.var := by
  intro hmem
  obtain ⟨lit, hlit, rfl⟩ := mem_map.mp hmem
  have := (h.assigned lit.var lit.sign).mpr hlit
  rw [hunset] at this
  exact absurd this (by simp)

theorem length_le : s.trail.length ≤ maxPackages := by
  have hsub : s.trail.map Lit.var ⊆ range maxPackages := fun v hv => by
    obtain ⟨lit, hlit, rfl⟩ := mem_map.mp hv
    exact mem_range.mpr (s.active_lt (h.active lit hlit))
  simpa using (subperm_of_subset h.distinct hsub).length_le

/-- An active variable that is unset is one the trail has still room for. -/
theorem length_lt (hactive : s.activeVariables v = true)
    (hunset : s.assignment v = none) : s.trail.length < maxPackages := by
  have hsub : v :: s.trail.map Lit.var ⊆ range maxPackages := by
    intro u hu
    rcases mem_cons.mp hu with rfl | hu
    · exact mem_range.mpr (s.active_lt hactive)
    · obtain ⟨lit, hlit, rfl⟩ := mem_map.mp hu
      exact mem_range.mpr (s.active_lt (h.active lit hlit))
  have hnodup : (v :: s.trail.map Lit.var).Nodup :=
    nodup_cons.mpr ⟨h.notMem_of_unset hunset, h.distinct⟩
  simpa using (subperm_of_subset hnodup hsub).length_le

/-- The trail is never full, so an assignment is always recorded. -/
theorem assign_trail : (s.assign lit).trail = lit :: s.trail := by
  have hle := h.length_le
  have : s.trail.length < maxTrail := by
    rw [maxPackages] at hle
    rw [maxTrail]
    omega
  rw [assign, if_pos this]

theorem assign (hactive : s.activeVariables lit.var = true)
    (hunset : s.assignment lit.var = none) : Coherent (s.assign lit) where
  assigned v b := by
    rw [h.assign_trail, mem_cons, ← h.assigned v b]
    change Function.update s.assignment lit.var (some lit.sign) v = some b ↔ _
    by_cases hv : v = lit.var
    · subst hv
      rw [Function.update_self, hunset, some_inj]
      constructor
      · rintro rfl
        exact .inl rfl
      · rintro (heq | heq)
        · rw [← heq]
        · exact absurd heq (by simp)
    · rw [Function.update_of_ne hv]
      refine ⟨.inr, fun h => h.resolve_left ?_⟩
      rintro rfl
      exact hv rfl
  distinct := by
    rw [h.assign_trail, map_cons]
    exact nodup_cons.mpr ⟨h.notMem_of_unset hunset, h.distinct⟩
  active := by
    rw [h.assign_trail]
    exact forall_mem_cons.mpr ⟨hactive, h.active⟩

theorem decideAt (level : Nat) (hactive : s.activeVariables lit.var = true)
    (hunset : s.assignment lit.var = none) : Coherent (s.decideAt level lit) := by
  have hlevel : Coherent { s with decisionLevel := level } := ⟨h.assigned, h.distinct, h.active⟩
  exact hlevel.assign hactive hunset

theorem decideAt_trail (level : Nat) : (s.decideAt level lit).trail = lit :: s.trail := by
  have hlevel : Coherent { s with decisionLevel := level } := ⟨h.assigned, h.distinct, h.active⟩
  exact hlevel.assign_trail

end

theorem unwind_append (top base : List (Lit Nat)) (assignment : Nat → Option Bool) :
    unwind base.length (top ++ base) assignment =
      (base, fun v => if v ∈ top.map Lit.var then none else assignment v) := by
  induction top generalizing assignment with
  | nil =>
    cases base with
    | nil | cons lit base => simp [unwind]
  | cons lit top ih =>
    rw [cons_append, unwind, if_pos (by rw [length_append]; omega), ih]
    congr 1
    funext v
    by_cases hv : v = lit.var
    · simp [hv]
    · simp [hv, Function.update_of_ne]

/-- Unwinding the trail to a point keeps what lies below. -/
theorem unassignBackTo (h : Coherent s) {top base : List (Lit Nat)} (htrail : s.trail = top ++
    base) :
    Coherent (s.unassignBackTo base.length) ∧ (s.unassignBackTo base.length).trail = base ∧
      ∀ v ∈ top.map Lit.var, (s.unassignBackTo base.length).assignment v = none := by
  have hunwind := unwind_append top base s.assignment
  have htrail' : (s.unassignBackTo base.length).trail = base := by
    rw [DpllSolver.unassignBackTo, htrail, hunwind]
  have hassign : (s.unassignBackTo base.length).assignment =
      fun v => if v ∈ top.map Lit.var then none else s.assignment v := by
    rw [DpllSolver.unassignBackTo, htrail, hunwind]
  have hdistinct := h.distinct
  rw [htrail, map_append, nodup_append] at hdistinct
  refine ⟨⟨fun v b => ?_, ?_, ?_⟩, htrail', fun v hv => ?_⟩
  · rw [htrail', hassign]
    by_cases hv : v ∈ top.map Lit.var
    · simp only [hv, if_true]
      refine ⟨fun h => absurd h (by simp), fun hmem => ?_⟩
      exact absurd rfl (hdistinct.2.2 v hv v (mem_map_of_mem hmem))
    · simp only [hv, if_false]
      rw [h.assigned, htrail, mem_append]
      exact or_iff_right fun hmem => hv (mem_map_of_mem hmem)
  · rw [htrail']
    exact hdistinct.2.1
  · rw [htrail']
    exact fun lit hlit => h.active lit (htrail ▸ mem_append_right _ hlit)
  · rw [hassign]
    exact if_pos hv

/-- A literal the assignment makes false is false in every valuation that agrees with the trail. -/
theorem not_holds (h : Coherent s) {m : Nat → Bool} (hm : Agrees m s.trail)
    (hfalse : s.assignment lit.var = some (!lit.sign)) : ¬ lit.Holds m := by
  intro hlit
  have hval : m lit.var = !lit.sign := hm _ ((h.assigned _ _).mp hfalse)
  exact not_ne_self _ (hval.symm.trans hlit)

end Coherent

/-! ## Propagation -/

namespace Exploring

/-- A clause in conflict refutes the trail. -/
theorem refutes (h : Exploring s frames) (hmem : clause ∈ s.clauses)
    (hstatus : clause.status s.assignment = .conflict) : Refutes s.clauses s.trail := by
  intro m hm hagrees
  obtain ⟨lit, hlit, hholds⟩ := hm clause hmem
  exact h.not_holds hagrees (Clause.of_status_conflict hstatus hlit) hholds

/-- A unit clause forces its literal. -/
theorem force (h : Exploring s frames) (hmem : clause ∈ s.clauses)
    (hstatus : clause.status s.assignment = .unit lit) :
    Exploring (s.force lit) frames ∧ (s.force lit).trail = lit :: s.trail := by
  obtain ⟨hlit, hunset, hothers⟩ := Clause.of_status_unit hstatus
  have hactive : s.activeVariables lit.var = true :=
    (s.active_iff _).mpr ⟨clause, hmem, lit, hlit, rfl⟩
  have htrail : (s.force lit).trail = lit :: s.trail := h.assign_trail
  refine ⟨⟨⟨(h.assign hactive hunset).assigned, (h.assign hactive hunset).distinct,
    (h.assign hactive hunset).active⟩, ?_⟩, htrail⟩
  rw [htrail]
  refine h.path.push fun m hm hagrees => ?_
  obtain ⟨l, hl, hholds⟩ := hm clause hmem
  rcases hothers l hl with rfl | hfalse
  · exact hholds
  · exact absurd hholds (h.not_holds hagrees hfalse)

end Exploring

/-- What a stretch of propagation keeps. -/
structure Follows (s : DpllSolver) (frames : List (Decision Nat)) (s' : DpllSolver) : Prop where
  store : s'.toClauseStore = s.toClauseStore
  exploring : Exploring s' frames
  longer : s.trail.length ≤ s'.trail.length

theorem Follows.trans {s'' : DpllSolver} (h : Follows s frames s') (h' : Follows s' frames s'') :
    Follows s frames s'' :=
  ⟨h'.store.trans h.store, h'.exploring, h.longer.trans h'.longer⟩

/-- Counting a conflict changes nothing the search depends on. -/
theorem Exploring.conflicts (h : Exploring s frames) (n : UInt32) :
    Exploring { s with conflicts := n } frames :=
  ⟨⟨h.assigned, h.distinct, h.active⟩, h.path⟩

/-- What a sweep over `clauses` comes to, if a literal had been forced before it when `already`. -/
structure Swept (s : DpllSolver) (frames : List (Decision Nat)) (clauses : List Clause)
    (already : Bool) (r : Option Nat × Bool × DpllSolver) : Prop where
  follows : Follows s frames r.2.2
  conflict : r.1 ≠ none → Refutes s.clauses r.2.2.trail
  forced : r.2.1 = true → already = true ∨ s.trail.length < r.2.2.trail.length
  quiet : r.1 = none → r.2.1 = false → already = false ∧ r.2.2 = s ∧
    ∀ clause ∈ clauses, clause.status s.assignment = .satisfied ∨
      clause.status s.assignment = .unresolved

theorem Swept.skip {clauses : List Clause} {already : Bool} {r : Option Nat × Bool × DpllSolver}
    (h : Swept s frames clauses already r)
    (hclause : clause.status s.assignment = .satisfied ∨ clause.status s.assignment = .unresolved) :
    Swept s frames (clause :: clauses) already r := by
  refine ⟨h.follows, h.conflict, h.forced, fun hnone hfalse => ?_⟩
  obtain ⟨halready, hsame, hrest⟩ := h.quiet hnone hfalse
  exact ⟨halready, hsame, forall_mem_cons.mpr ⟨hclause, hrest⟩⟩

theorem Exploring.sweep {clauses : List Clause} (h : Exploring s frames)
    (hsub : ∀ clause ∈ clauses, clause ∈ s.clauses) (ci : Nat) (already : Bool) :
    Swept s frames clauses already (sweep clauses ci already s) := by
  induction clauses generalizing s ci already with
  | nil => exact ⟨⟨rfl, h, le_rfl⟩, fun hne => absurd rfl hne, .inl, fun _ h => ⟨h, rfl, by simp⟩⟩
  | cons clause rest ih =>
    obtain ⟨hclause, hrest⟩ := forall_mem_cons.mp hsub
    rw [DpllSolver.sweep]
    cases hstatus : clause.status s.assignment with
    | unit lit =>
      have hforce := h.force hclause hstatus
      have hswept := ih hforce.1 hrest (ci + 1) true
      have hlonger := hswept.follows.longer
      rw [hforce.2, length_cons] at hlonger
      change Swept s frames (clause :: rest) already (DpllSolver.sweep rest (ci + 1) true
        (s.force lit))
      refine ⟨⟨hswept.follows.store, hswept.follows.exploring, by omega⟩, hswept.conflict,
        fun _ => .inr (by omega), fun hnone hfalse => ?_⟩
      exact absurd (hswept.quiet hnone hfalse).1 (by decide)
    | conflict =>
      exact ⟨⟨rfl, h.conflicts _, le_rfl⟩, fun _ => h.refutes hclause hstatus,
        .inl, fun hnone => absurd hnone (by simp)⟩
    | satisfied => exact (ih h hrest (ci + 1) already).skip (.inl hstatus)
    | unresolved => exact (ih h hrest (ci + 1) already).skip (.inr hstatus)

/-- What `propagate` comes to: a trail that is refuted, or one that no clause adds to. -/
theorem Exploring.propagate (h : Exploring s frames) (hfuel : maxPackages < fuel + s.trail.length) :
    ∃ conflict s', propagate fuel s = some (conflict, s') ∧ Follows s frames s' ∧
      (conflict ≠ none → Refutes s.clauses s'.trail) ∧
      (conflict = none → ∀ clause ∈ s'.clauses, clause.status s'.assignment = .satisfied ∨
        clause.status s'.assignment = .unresolved) := by
  induction fuel generalizing s with
  | zero =>
    have := h.length_le
    omega
  | succ fuel ih =>
    have hswept := h.sweep (fun _ hmem => hmem) 0 false
    rw [DpllSolver.propagate]
    generalize DpllSolver.sweep s.clauses 0 false s = r at hswept ⊢
    obtain ⟨conflict, propagatedAny, s'⟩ := r
    cases conflict with
    | some ci =>
      exact ⟨some ci, s', rfl, hswept.follows, fun _ => hswept.conflict (by simp),
        fun hnone => absurd hnone (by simp)⟩
    | none =>
      cases propagatedAny with
      | true =>
        have hlonger : s.trail.length < s'.trail.length :=
          (hswept.forced rfl).resolve_left false_ne_true
        obtain ⟨conflict, s'', heq, hfollows, hconflict, hquiet⟩ :=
          ih (s := s') hswept.follows.exploring (by omega)
        refine ⟨conflict, s'', heq, hswept.follows.trans hfollows, fun hne => ?_, hquiet⟩
        rw [← hswept.follows.store]
        exact hconflict hne
      | false =>
        obtain ⟨_, rfl, hquiet⟩ := hswept.quiet rfl rfl
        exact ⟨none, s', rfl, hswept.follows, fun hne => absurd rfl hne, fun _ => hquiet⟩

/-! ## The loop -/

theorem pickBranchVar_eq_some (h : s.pickBranchVar = some v) :
    s.activeVariables v = true ∧ s.assignment v = none ∧
      ∀ u, s.activeVariables u = true → u < v → s.assignment u ≠ none := by
  have hfound := find?_some h
  rw [and_eq_true, isNone_iff_eq_none] at hfound
  refine ⟨hfound.1, hfound.2, fun u hactive hlt hunset => ?_⟩
  have hbefore := (find?_range_eq_some.mp h).2.2 u hlt
  simp [hactive, hunset] at hbefore

theorem pickBranchVar_eq_none (h : s.pickBranchVar = none)
    (hactive : s.activeVariables v = true) : s.assignment v ≠ none := by
  intro hunset
  have := find?_eq_none.mp h v (mem_range.mpr (s.active_lt hactive))
  simp [hactive, hunset] at this

namespace Exploring

/-- A new decision takes the lowest active variable that is unset. -/
theorem branch (h : Exploring s frames) (hv : s.pickBranchVar = some v) :
    Exploring (s.decideAt (frames.length + 1) (Lit.neg v))
      (⟨v, s.trail.length, false⟩ :: frames) := by
  obtain ⟨hactive, hunset, hlowest⟩ := pickBranchVar_eq_some hv
  refine ⟨h.decideAt _ hactive hunset, ?_⟩
  rw [h.decideAt_trail]
  refine h.path.decide fun u hu hlt => ?_
  obtain ⟨value, hvalue⟩ := ne_none_iff_exists'.mp (hlowest u hu hlt)
  exact ⟨⟨u, value⟩, (h.assigned u value).mp hvalue, rfl⟩

/-- After a conflict the search resumes at a later point, or there is no model. -/
theorem backtrack (h : Exploring s frames) (href : Refutes s.clauses s.trail) :
    (backtrack frames s).2.toClauseStore = s.toClauseStore ∧
    ((backtrack frames s).1 = none → ∀ m, ¬ Models m s.clauses) ∧
    ∀ frames', (backtrack frames s).1 = some frames' → Exploring (backtrack frames s).2 frames' ∧
      Cnf.odometer maxPackages frames + 3 ^ (maxPackages - frames.length) ≤
        Cnf.odometer maxPackages frames' := by
  induction frames generalizing s with
  | nil =>
    refine ⟨rfl, fun _ m hm => ?_, fun _ hsome => absurd hsome (by simp [DpllSolver.backtrack])⟩
    cases h.path with
    | root hforces => exact href m hm (hforces m hm fun _ hmem => absurd hmem not_mem_nil)
  | cons frame frames ih =>
    have hlen : frames.length < maxPackages := h.path.length_le.trans h.length_le
    obtain ⟨base, ⟨implied, htrail⟩, hstart, hpath, hrefutes, htried, hlowest⟩ := h.path.parent
    have happ : s.trail = (implied ++ [frame.lit]) ++ base := by simpa using htrail
    obtain ⟨hcoherent, hbase, hunset⟩ := h.unassignBackTo happ
    rw [← hstart] at hcoherent hbase hunset
    rw [DpllSolver.backtrack]
    cases hphase : frame.triedPositive with
    | false =>
      have hneg : Refutes s.clauses (Lit.neg frame.chosen :: base) := by
        have := hrefutes href
        rwa [Decision.lit, hphase] at this
      rw [if_pos rfl]
      refine ⟨rfl, fun hnone => absurd hnone (by simp), ?_⟩
      rintro frames' ⟨⟩
      refine ⟨⟨hcoherent.decideAt _ ?_ ?_, ?_⟩, (Cnf.odometer_flip hphase).le⟩
      · exact h.active frame.lit (by rw [happ]; simp)
      · exact hunset frame.chosen (by simp [Decision.lit])
      · rw [hcoherent.decideAt_trail, hbase]
        exact hpath.flip hstart hneg hlowest
    | true =>
      have hboth : Refutes s.clauses base := by
        refine Cnf.refutes_of_both (htried hphase) ?_
        have := hrefutes href
        rwa [Decision.lit, hphase] at this
      rw [Cnf.odometer_carry hphase hlen]
      have hexploring : Exploring
          { s.unassignBackTo frame.trailStart with decisionLevel := frames.length } frames := by
        refine ⟨⟨hcoherent.assigned, hcoherent.distinct, hcoherent.active⟩, ?_⟩
        rw [hbase]
        exact hpath
      exact ih hexploring (by rw [hbase]; exact hboth)

end Exploring

/-- What the search ends with. -/
def Verdict (s : DpllSolver) : SolveResult → Prop
  | .unsatisfiable => ∀ m, ¬ Models m s.clauses
  | .satisfiable _ _ _ => (∃ frames, Exploring s frames) ∧
      ∀ clause ∈ s.clauses, clause.status s.assignment = .satisfied

theorem Exploring.search (h : Exploring s frames)
    (hfuel : 3 ^ maxPackages ≤ fuel + Cnf.odometer maxPackages frames) :
    ∃ result s', search fuel frames s = some (result, s') ∧
      s'.toClauseStore = s.toClauseStore ∧ Verdict s' result := by
  induction fuel generalizing s frames with
  | zero =>
    have hlen : frames.length ≤ maxPackages := h.path.length_le.trans h.length_le
    have := Cnf.odometer_lt hlen
    omega
  | succ fuel ih =>
    have hroom : maxPackages < maxPackages + 1 + s.trail.length := by omega
    obtain ⟨conflict, s', heq, hfollows, hconflict, hquiet⟩ := h.propagate hroom
    rw [DpllSolver.search, heq]
    cases conflict with
    | some ci =>
      have href : Refutes s'.clauses s'.trail := by
        rw [hfollows.store]
        exact hconflict (by simp)
      obtain ⟨hstore, hnone, hsome⟩ := hfollows.exploring.backtrack href
      simp only
      generalize DpllSolver.backtrack frames s' = r at hstore hnone hsome ⊢
      obtain ⟨resumed, s''⟩ := r
      cases resumed with
      | none =>
        refine ⟨.unsatisfiable, s'', rfl, hstore.trans hfollows.store, fun m hm => hnone rfl m ?_⟩
        exact hstore ▸ hm
      | some frames' =>
        obtain ⟨hexploring, hup⟩ := hsome frames' rfl
        have hpos : 0 < 3 ^ (maxPackages - frames.length) := Nat.pow_pos (by decide)
        obtain ⟨result, final, hrun, hkeep, hverdict⟩ := ih hexploring (by omega)
        exact ⟨result, final, hrun, hkeep.trans (hstore.trans hfollows.store), hverdict⟩
    | none =>
      simp only
      cases hpick : s'.pickBranchVar with
      | none =>
        refine ⟨_, s', rfl, hfollows.store, ⟨frames, hfollows.exploring⟩, fun clause hmem => ?_⟩
        refine (hquiet rfl clause hmem).resolve_right fun hunresolved => ?_
        obtain ⟨lit, hlit, hunset⟩ := Clause.of_status_unresolved hunresolved
        exact pickBranchVar_eq_none hpick
          ((s'.active_iff _).mpr ⟨clause, hmem, lit, hlit, rfl⟩) hunset
      | some v =>
        have hlt : frames.length < maxPackages := by
          obtain ⟨hactive, hunset, _⟩ := pickBranchVar_eq_some hpick
          have := hfollows.exploring.path.length_le
          have := hfollows.exploring.length_lt hactive hunset
          omega
        simp only [if_neg hlt.ne]
        have hup : Cnf.odometer maxPackages frames <
            Cnf.odometer maxPackages (⟨v, s'.trail.length, false⟩ :: frames) :=
          Cnf.odometer_decide rfl
        obtain ⟨result, final, hrun, hkeep, hverdict⟩ :=
          ih (hfollows.exploring.branch hpick) (by omega)
        exact ⟨result, final, hrun, hkeep.trans hfollows.store, hverdict⟩

/-- More fuel changes nothing once the search has ended. -/
theorem search_add {outcome : SolveResult × DpllSolver}
    (h : search fuel frames s = some outcome) (extra : Nat) :
    search (fuel + extra) frames s = some outcome := by
  induction fuel generalizing s frames with
  | zero => exact absurd h (by simp [search])
  | succ fuel ih =>
    rw [Nat.add_right_comm]
    rw [search] at h ⊢
    cases hpropagate : propagate (maxPackages + 1) s with
    | none => simp [hpropagate] at h
    | some swept =>
      obtain ⟨conflict, s'⟩ := swept
      simp only [hpropagate] at h ⊢
      cases conflict with
      | some ci =>
        simp only at h ⊢
        generalize backtrack frames s' = r at h ⊢
        obtain ⟨resumed, s''⟩ := r
        cases resumed with
        | none => exact h
        | some frames' => exact ih h
      | none =>
        cases hpick : s'.pickBranchVar with
        | none => simpa [hpick] using h
        | some v =>
          simp only [hpick] at h ⊢
          split at h
          case isTrue hfull => rw [if_pos hfull]; exact h
          case isFalse hfull => rw [if_neg hfull]; exact ih h

theorem exploring_resetSearch (s : DpllSolver) : Exploring s.resetSearch [] where
  assigned v b := iff_of_false (by simp [resetSearch, new]) (by simp [resetSearch, new])
  distinct := nodup_nil
  active := by simp [resetSearch, new]
  path := .root fun _ _ h => h

theorem Coherent.readOff (h : Coherent s) : Cnf.ReadOff s.trail s.selected := by
  refine ⟨fun lit hlit => ?_, fun v hv => ?_⟩
  · have hval := (h.assigned lit.var lit.sign).mpr hlit
    change (s.assignment lit.var == some true) = lit.sign
    rw [hval]
    cases lit.sign <;> rfl
  · exact (h.assigned v true).mp (beq_iff_eq.mp hv)

/-- The selection satisfies the clauses whose status is satisfied. -/
theorem models_selected (h : ∀ clause ∈ s.clauses, clause.status s.assignment = .satisfied) :
    Models s.selected s.clauses := by
  intro clause hmem
  obtain ⟨lit, hlit, hval⟩ := Clause.status_eq_satisfied.mp (h clause hmem)
  refine ⟨lit, hlit, ?_⟩
  change (s.assignment lit.var == some true) = lit.sign
  rw [hval]
  cases lit.sign <;> rfl

/-! ## The result -/

/-- What the solver and its result are when `solve` has ended on `s`. -/
structure Solved (s : DpllSolver) (result : SolveResult) (s' : DpllSolver) : Prop where
  store : s'.toClauseStore = s.toClauseStore
  unsatisfiable_iff : result = .unsatisfiable ↔ ¬ ∃ m, Models m s.clauses
  satisfied : result ≠ .unsatisfiable →
    ∀ clause ∈ s.clauses, clause.status s'.assignment = .satisfied
  least : result ≠ .unsatisfiable →
    IsLeast {m : Lex (Nat → Bool) | Models (ofLex m) s.clauses} (toLex s'.selected)

/-- The number of turns after which the loop of `solve` has ended. -/
def enoughFuel : Nat := 3 ^ maxPackages

theorem solve_solved (s : DpllSolver) :
    ∃ result s', (∀ extra, s.solve (enoughFuel + extra) = some (result, s')) ∧
      Solved s result s' := by
  obtain ⟨result, s', hrun, hstore, hverdict⟩ :=
    s.exploring_resetSearch.search (Nat.le_add_right enoughFuel _)
  refine ⟨result, s', fun extra => search_add hrun extra, ?_⟩
  cases result with
  | unsatisfiable =>
    refine ⟨hstore, iff_of_true rfl ?_, fun hne => absurd rfl hne, fun hne => absurd rfl hne⟩
    rintro ⟨m, hm⟩
    exact hverdict m (hstore ▸ hm)
  | satisfiable decisions propagations conflicts =>
    obtain ⟨⟨frames, hexploring⟩, hsatisfied⟩ := hverdict
    have hmodel : Models s'.selected s'.clauses := models_selected hsatisfied
    have hleast : ∀ m, Models m s'.clauses → ¬ toLex m < toLex s'.selected := fun m hm =>
      hexploring.path.not_lex_lt hexploring.active hexploring.readOff hm
    rw [hstore] at hsatisfied hmodel hleast
    refine ⟨hstore, iff_of_false (by simp) (not_not.mpr ⟨_, hmodel⟩), fun _ => hsatisfied, fun _ =>
      ?_⟩
    exact ⟨hmodel, fun m hm => le_of_not_gt (hleast _ hm)⟩

/-- **The solver is sound and complete, and finds the least model.**  Given enough fuel `solve`
ends, with the same outcome whatever more it is given.  It reports unsatisfiable exactly when the
clauses have no model; otherwise it leaves every clause satisfied by the assignment, and the
selected variables are the lexicographically least model, absence before presence, so that no model
selects strictly less. -/
theorem solve_finds_least_model (s : DpllSolver) :
    ∃ result s', (∀ extra, s.solve (enoughFuel + extra) = some (result, s')) ∧
      s'.clauses = s.clauses ∧
      (result = .unsatisfiable ↔ ¬ ∃ m, Models m s.clauses) ∧
      (result ≠ .unsatisfiable → (∀ clause ∈ s.clauses, clause.status s'.assignment = .satisfied) ∧
        IsLeast {m : Lex (Nat → Bool) | Models (ofLex m) s.clauses} (toLex s'.selected) ∧
        ∀ m, Models m s.clauses → ¬ m < s'.selected) := by
  obtain ⟨result, s', hrun, hsolved⟩ := s.solve_solved
  refine ⟨result, s', hrun, congrArg ClauseStore.clauses hsolved.store,
    hsolved.unsatisfiable_iff, fun hne => ⟨hsolved.satisfied hne, hsolved.least hne, ?_⟩⟩
  intro m hm hlt
  exact not_lt_of_ge ((hsolved.least hne).2 hm) (Pi.toLex_strictMono hlt)

end DpllSolver

end Sisyphus.Alchemist
