import Sisyphus.Corinth.Ledger

/-!
# What an edit does

Each call on a transaction that succeeds is one of four changes, and one that fails leaves the
transaction as it was (`ensures_run`).  All of them keep the packages in order and within the
ledger's capacity (`Image.apply`): `find_name` answers with the one place where a new name leaves
the order alone (`findName_eq_error`), and an upgrade does not change a name.
-/

set_option autoImplicit false

namespace Sisyphus.Corinth

open Fallible List UInt64

/-! ## Changes -/

/-- What a call that succeeds leaves. -/
inductive Changed (t : PackageTransaction) : PackageTransaction → Prop
  | install {package : ResolvedPackage} {index : Nat}
    (hfind : findName t.packages package.nameHash = .error index)
    (hroom : t.packages.length ≠ maxInstalledPackages) :
    Changed t { t with
      packages := t.packages.insertIdx index package
      touchedNames := t.touchedNames ++ [package.nameHash] }
  | remove (nameHash : UInt64) (index : Nat) :
    Changed t { t with
      packages := removeAt t.packages index
      touchedNames := t.touchedNames ++ [nameHash] }
  | upgrade (nameHash : UInt64) (index : Nat) (version : UInt16) :
    Changed t { t with
      packages := t.packages.modify index fun package => { package with versionIdx := version }
      touchedNames := t.touchedNames ++ [nameHash] }
  | reconcile {selected : List PkgVar} {packages : List ResolvedPackage}
    (hselect : selected.foldlM PackageTransaction.insertSelected [] = .ok packages) :
    Changed t { t with packages, isSealed := true }

variable {packages : List ResolvedPackage} {index : Nat} {package : ResolvedPackage}

namespace PackageTransaction

theorem ensures_prepareIntent (t : PackageTransaction) (nameHash : UInt64) :
    Ensures (prepareIntent nameHash) t
      (fun _ next => next = t) (fun _ next => next = t) := by
  simp only [prepareIntent, ensures_rules]

theorem insertAt_eq_ok {next : List ResolvedPackage}
    (h : insertAt packages index package = .ok next) :
    packages.length ≠ maxInstalledPackages ∧ next = packages.insertIdx index package := by
  obtain ⟨hroom, ⟨⟩⟩ := ite_error_eq_ok.mp h
  exact ⟨hroom, rfl⟩

theorem ensures_install (t : PackageTransaction) (package : ResolvedPackage) :
    Ensures (install package) t (fun _ next => Changed t next) (fun _ next => next = t) := by
  rw [install, ensures_bind]
  refine (ensures_prepareIntent t _).imp_ok ?_
  rintro _ t rfl
  rw [ensures_bind, ensures_get]
  cases hfind : findName t.packages package.nameHash with
  | ok index => exact rfl
  | error index =>
    simp only [ensures_rules, recordIntent]
    intro packages hinsert
    obtain ⟨hroom, rfl⟩ := insertAt_eq_ok hinsert
    exact .install hfind hroom

theorem ensures_remove (t : PackageTransaction) (nameHash : UInt64) (version : UInt16) :
    Ensures (remove nameHash version) t (fun _ next => Changed t next)
      (fun _ next => next = t) := by
  rw [remove, ensures_bind]
  refine (ensures_prepareIntent t _).imp_ok ?_
  rintro _ t rfl
  simp only [ensures_rules, recordIntent]
  exact fun index _ => .remove nameHash index

theorem ensures_upgrade (t : PackageTransaction) (nameHash : UInt64) (version next : UInt16) :
    Ensures (upgrade nameHash version next) t (fun _ next => Changed t next)
      (fun _ next => next = t) := by
  rw [upgrade, ensures_bind]
  refine (ensures_prepareIntent t _).imp_ok ?_
  rintro _ t rfl
  simp only [ensures_rules, recordIntent]
  exact fun index _ => .upgrade nameHash index next

theorem ensures_reconcileSelection (t : PackageTransaction) (registry : VariableRegistry) :
    Ensures (reconcileSelection registry) t (fun _ next => Changed t next)
      (fun _ next => next = t) := by
  simp only [reconcileSelection, ensures_rules]
  exact fun _ _ _ _ hselect => .reconcile hselect

end PackageTransaction

/-- Every call that succeeds is a change, and one that fails changes nothing. -/
theorem ensures_run (t : PackageTransaction) (edit : Edit) :
    Ensures edit.run t (fun _ next => Changed t next) (fun _ next => next = t) := by
  cases edit with
  | install package => exact PackageTransaction.ensures_install t package
  | remove nameHash version => exact PackageTransaction.ensures_remove t nameHash version
  | upgrade nameHash version next =>
    exact PackageTransaction.ensures_upgrade t nameHash version next
  | reconcileSelection registry =>
    exact PackageTransaction.ensures_reconcileSelection t registry

theorem apply_cases (t : PackageTransaction) (edit : Edit) :
    Changed t (edit.apply t) ∨ edit.apply t = t := by
  rcases (ensures_run t edit).cases with ⟨_, next, heq, hchanged⟩ | ⟨e, next, heq, rfl⟩
  · rw [Edit.apply, heq]
    exact .inl hchanged
  · rw [Edit.apply, heq]
    exact .inr rfl

theorem base_apply (t : PackageTransaction) (edit : Edit) : (edit.apply t).base = t.base := by
  rcases apply_cases t edit with hchanged | heq
  · generalize edit.apply t = next at hchanged
    cases hchanged <;> rfl
  · rw [heq]

/-! ## Packages in order -/

/-- The packages that a ledger can have. -/
structure Image (packages : List ResolvedPackage) : Prop where
  ordered : packages.Pairwise fun a b => a.nameHash < b.nameHash
  fits : packages.length ≤ maxInstalledPackages

def names (packages : List ResolvedPackage) : List UInt64 := packages.map ResolvedPackage.nameHash

section

variable {nameHash : UInt64}

theorem findName_eq_ok (h : findName packages nameHash = .ok index) :
    ∃ package, packages[index]? = some package ∧ package.nameHash = nameHash := by
  obtain ⟨hany, ⟨⟩⟩ := ite_eq_ok_error.mp h
  obtain ⟨package, hget, heq⟩ := (Option.any_eq_true _ _).mp hany
  exact ⟨package, hget, by simpa using heq⟩

/-- The place for a name that is not there: what is before it is smaller, and what is after it is
greater. -/
theorem findName_eq_error (hordered : packages.Pairwise fun a b => a.nameHash < b.nameHash)
    (h : findName packages nameHash = .error index) :
    index ≤ packages.length ∧ (∀ package ∈ packages.take index, package.nameHash < nameHash) ∧
      ∀ package ∈ packages.drop index, nameHash < package.nameHash := by
  rw [findName] at h
  split at h
  · cases h
  next hany =>
  obtain rfl := Except.error.inj h
  refine ⟨findIdx_le_length, fun package hmem => ?_, fun package hmem => ?_⟩
  · obtain ⟨i, hi, rfl⟩ := mem_take_iff_getElem.mp hmem
    have hlt : i < packages.findIdx fun package => nameHash ≤ package.nameHash := by omega
    simpa using not_of_lt_findIdx hlt
  · generalize hindex : packages.findIdx (fun package => decide (nameHash ≤ package.nameHash)) =
      index at hmem hany
    obtain ⟨j, hj, rfl⟩ := mem_drop_iff_getElem.mp hmem
    have hlt : index < packages.length := by omega
    have hle : nameHash ≤ packages[index].nameHash := by
      subst hindex
      simpa using findIdx_getElem (w := hlt)
    have hne : packages[index].nameHash ≠ nameHash := by
      simpa [getElem?_eq_getElem hlt] using hany
    have hfirst : nameHash < packages[index].nameHash := UInt64.lt_of_le_of_ne hle hne.symm
    cases j with
    | zero => exact hfirst
    | succ j =>
      exact UInt64.lt_trans hfirst (pairwise_iff_getElem.mp hordered _ _ hlt _ (by omega))

theorem insertIdx_eq {α : Type} (l : List α) (a : α) {i : Nat} (hi : i ≤ l.length) :
    l.insertIdx i a = l.take i ++ a :: l.drop i := by
  induction l generalizing i with
  | nil =>
    obtain rfl : i = 0 := by simpa using hi
    rfl
  | cons b rest ih =>
    cases i with
    | zero => rfl
    | succ i =>
      rw [insertIdx_succ_cons, ih (by simpa using hi)]
      rfl

theorem Image.insert (h : Image packages)
    (hfind : findName packages package.nameHash = .error index)
    (hroom : packages.length ≠ maxInstalledPackages) :
    Image (packages.insertIdx index package) := by
  obtain ⟨hle, hbefore, hafter⟩ := findName_eq_error h.ordered hfind
  refine ⟨?_, ?_⟩
  · rw [insertIdx_eq _ _ hle, pairwise_append, pairwise_cons]
    refine ⟨h.ordered.sublist (take_sublist ..),
      ⟨hafter, h.ordered.sublist (drop_sublist ..)⟩, fun a ha b hb => ?_⟩
    rcases mem_cons.mp hb with rfl | hb
    · exact hbefore a ha
    · exact UInt64.lt_trans (hbefore a ha) (hafter b hb)
  · have hfits := h.fits
    rw [length_insertIdx, if_pos hle]
    omega

theorem Image.remove (h : Image packages) (index : Nat) : Image (removeAt packages index) :=
  ⟨h.ordered.sublist (eraseIdx_sublist ..),
    (eraseIdx_sublist packages index).length_le.trans h.fits⟩

/-- Another version of a package goes to the same place. -/
theorem names_modify (packages : List ResolvedPackage) (index : Nat) (version : UInt16) :
    names (packages.modify index fun package => { package with versionIdx := version }) =
      names packages := by
  induction packages generalizing index with
  | nil => cases index <;> rfl
  | cons first rest ih =>
    cases index with
    | zero => rfl
    | succ index => exact congrArg (first.nameHash :: ·) (ih index)

theorem pairwise_iff_names : packages.Pairwise (fun a b => a.nameHash < b.nameHash) ↔
    (names packages).Pairwise (· < ·) := pairwise_map.symm

theorem Image.upgrade (h : Image packages) (index : Nat) (version : UInt16) :
    Image (packages.modify index fun package => { package with versionIdx := version }) := by
  refine ⟨?_, by rw [length_modify]; exact h.fits⟩
  rw [pairwise_iff_names, names_modify, ← pairwise_iff_names]
  exact h.ordered

theorem Image.nil : Image [] := ⟨.nil, Nat.zero_le _⟩

/-- The loop of `reconcile_selection`. -/
theorem Image.select {selected : List PkgVar}
    (hselect : selected.foldlM PackageTransaction.insertSelected [] = .ok packages) :
    Image packages := by
  refine foldlM_eq_ok (I := fun _ chosen => Image chosen) hselect .nil ?_
  intro _ _ _ chosen next h hn
  rw [PackageTransaction.insertSelected] at hn
  split at hn
  · cases hn
  · next index hfind =>
    obtain ⟨hroom, rfl⟩ := PackageTransaction.insertAt_eq_ok hn
    exact h.insert hfind hroom

/-- **A call keeps the packages in order.** -/
theorem Image.apply {t : PackageTransaction} (h : Image t.packages) (edit : Edit) :
    Image (edit.apply t).packages := by
  rcases apply_cases t edit with hchanged | heq
  · generalize edit.apply t = next at hchanged
    cases hchanged with
    | install hfind hroom => exact h.insert hfind hroom
    | remove => exact h.remove _
    | upgrade => exact h.upgrade _ _
    | reconcile hselect => exact .select hselect
  · rwa [heq]

end

end Sisyphus.Corinth
