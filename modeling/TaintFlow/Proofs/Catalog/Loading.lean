import TaintFlow.Proofs.Catalog.Store
import TaintFlow.Proofs.Pointwise

/-!
# Loading one catalog does not change another

A store gives out what it keeps, and reads what it does not keep.  What it keeps may be older than
the files: then it goes on giving out the older points.  `Store.given` says what a store gives for
a family.  Loading keeps more, whether it succeeds or fails halfway, but it never changes what the
store gives.

* `GivesSame` : two stores give the same for every family.
* `leaves_load` : loading gives `given`, and leaves a store that gives the same.
* `GivesSame.loaded` : so what is loaded for a family does not depend on what was loaded before.
* `caches_iff_givesSame` : the stores that give what would be read are those that cache the files.
* `Filed` : catalogs are kept under the families that they are for.
-/

namespace TaintFlow.Catalog.Store

open TaintFlow.Files

section

variable (read : ValueReader) (fs : FileSystem) (s : Store) (v : Vulnerability)

/-- The entry points that a store gives. -/
def givenEntryPoints : Except CatalogError (List Pattern) :=
  match s.entryPoints with
  | some points => .ok points
  | none => entryPointsOf read fs s.origin

/-- The common sanitization points that a store gives. -/
def givenCommonSanitizers : Except CatalogError (List Pattern) :=
  match s.commonSanitizers with
  | some points => .ok points
  | none => commonSanitizersOf read fs s.origin

/-- The sanitization points that a store gives for a family: the common ones, then its own. -/
def givenSanitizers : Except CatalogError (List Pattern) := do
  let common ← s.givenCommonSanitizers read fs
  match s.origin with
  | .bundled => return common ++ Bundled.ownSanitizers v
  | .directory dir => return common ++ (← readSanitizers read fs dir v.key)

/-- The catalog that a store gives for a family. -/
def given : Except CatalogError Catalog :=
  match s.catalogs.get? v with
  | some catalog => .ok catalog
  | none => do
    let entryPoints ← s.givenEntryPoints read fs
    let exitPoints ← exitPointsOf read fs s.origin v
    let sanitizationPoints ← s.givenSanitizers read fs v
    return { vulnerability := v, entryPoints, exitPoints, sanitizationPoints }

end

/-- The second store gives what the first one gives, in all its parts. -/
structure GivesSame (read : ValueReader) (fs : FileSystem) (s s' : Store) : Prop where
  origin : s'.origin = s.origin
  entryPoints : s'.givenEntryPoints read fs = s.givenEntryPoints read fs
  commonSanitizers : s'.givenCommonSanitizers read fs = s.givenCommonSanitizers read fs
  catalogs : ∀ v, s'.given read fs v = s.given read fs v

section

variable {read : ValueReader} {fs : FileSystem} {s s' s'' : Store}

theorem GivesSame.refl (read : ValueReader) (fs : FileSystem) (s : Store) : GivesSame read fs s s :=
  ⟨rfl, rfl, rfl, fun _ => rfl⟩

theorem GivesSame.trans (h : GivesSame read fs s s') (h' : GivesSame read fs s' s'') :
    GivesSame read fs s s'' where
  origin := h'.origin.trans h.origin
  entryPoints := h'.entryPoints.trans h.entryPoints
  commonSanitizers := h'.commonSanitizers.trans h.commonSanitizers
  catalogs v := (h'.catalogs v).trans (h.catalogs v)

theorem GivesSame.sanitizers (h : GivesSame read fs s s') (v : Vulnerability) :
    s'.givenSanitizers read fs v = s.givenSanitizers read fs v := by
  unfold givenSanitizers
  rw [h.commonSanitizers, h.origin]

/-- A family whose catalog is not kept is given its parts. -/
theorem given_of_none {v : Vulnerability} (h : s.catalogs.get? v = none) :
    s.given read fs v = (do
      let entryPoints ← s.givenEntryPoints read fs
      let exitPoints ← exitPointsOf read fs s.origin v
      let sanitizationPoints ← s.givenSanitizers read fs v
      return { vulnerability := v, entryPoints, exitPoints, sanitizationPoints }) := by
  rw [given, h]

theorem given_of_some {v : Vulnerability} {catalog : Catalog}
    (h : s.catalogs.get? v = some catalog) : s.given read fs v = .ok catalog := by
  rw [given, h]

/-- The second store keeps the catalogs that the first one keeps, and gives the same parts. -/
structure SameParts (read : ValueReader) (fs : FileSystem) (s s' : Store) : Prop where
  origin : s'.origin = s.origin
  catalogs : s'.catalogs = s.catalogs
  entryPoints : s'.givenEntryPoints read fs = s.givenEntryPoints read fs
  commonSanitizers : s'.givenCommonSanitizers read fs = s.givenCommonSanitizers read fs

theorem SameParts.refl (read : ValueReader) (fs : FileSystem) (s : Store) : SameParts read fs s s :=
  ⟨rfl, rfl, rfl, rfl⟩

theorem SameParts.trans (h : SameParts read fs s s') (h' : SameParts read fs s' s'') :
    SameParts read fs s s'' where
  origin := h'.origin.trans h.origin
  catalogs := h'.catalogs.trans h.catalogs
  entryPoints := h'.entryPoints.trans h.entryPoints
  commonSanitizers := h'.commonSanitizers.trans h.commonSanitizers

theorem SameParts.givesSame (h : SameParts read fs s s') : GivesSame read fs s s' where
  origin := h.origin
  entryPoints := h.entryPoints
  commonSanitizers := h.commonSanitizers
  catalogs v := by
    unfold given givenSanitizers
    rw [h.catalogs, h.entryPoints, h.commonSanitizers, h.origin]

/-- Keeping a catalog that is given changes nothing. -/
theorem givesSame_insert {v : Vulnerability} {catalog : Catalog}
    (h : s.given read fs v = .ok catalog) :
    GivesSame read fs s { s with catalogs := s.catalogs.insert v catalog } where
  origin := rfl
  entryPoints := rfl
  commonSanitizers := rfl
  catalogs v' := by
    by_cases hv : v' = v
    · subst hv
      rw [h]
      exact given_of_some ((Table.get?_insert ..).trans (if_pos rfl))
    · have hget : (s.catalogs.insert v catalog).get? v' = s.catalogs.get? v' :=
        (Table.get?_insert ..).trans (if_neg hv)
      unfold given
      simp only [hget]
      rfl

/-! ### Loading -/

/-- An operation gives a result, and leaves the catalogs of a store and the parts that it gives. -/
def Reads {α : Type} (read : ValueReader) (fs : FileSystem) (s : Store) (op : Load α)
    (result : Except CatalogError α) : Prop :=
  (op.run.run s).1 = result ∧ SameParts read fs s (op.run.run s).2

/-- An operation gives a result and leaves a store that gives what the store gave before.  If it
fails, it leaves the catalogs. -/
structure Leaves {α : Type} (read : ValueReader) (fs : FileSystem) (s : Store) (op : Load α)
    (result : Except CatalogError α) : Prop where
  result_eq : (op.run.run s).1 = result
  givesSame : GivesSame read fs s (op.run.run s).2
  catalogs : ∀ e, result = .error e → (op.run.run s).2.catalogs = s.catalogs

section

variable {α β : Type} {op : Load α} {next : α → Load β} {x : Except CatalogError α}
  {y : α → Except CatalogError β}

theorem Reads.leaves (h : Reads read fs s op x) : Leaves read fs s op x :=
  ⟨h.1, h.2.givesSame, fun _ _ => h.2.catalogs⟩

theorem Reads.bind (h : Reads read fs s op x)
    (hnext : ∀ a, x = .ok a → ∀ s', SameParts read fs s s' → Reads read fs s' (next a) (y a)) :
    Reads read fs s (op >>= next) (x >>= y) := by
  obtain ⟨rfl, hs⟩ := h
  unfold Reads
  rw [run_bind]
  rcases hop : op.run.run s with ⟨e | a, s'⟩ <;> rw [hop] at hs hnext
  · exact ⟨rfl, hs⟩
  · obtain ⟨hresult, hs'⟩ := hnext a rfl s' hs
    exact ⟨hresult, hs.trans hs'⟩

/-- Once its parts are read, the operation may keep more. -/
theorem Leaves.bind (h : Reads read fs s op x)
    (hnext : ∀ a, x = .ok a → ∀ s', SameParts read fs s s' → Leaves read fs s' (next a) (y a)) :
    Leaves read fs s (op >>= next) (x >>= y) := by
  obtain ⟨rfl, hs⟩ := h
  constructor <;> rw [run_bind]
  all_goals rcases hop : op.run.run s with ⟨e | a, s'⟩ <;> rw [hop] at hs hnext
  · rfl
  · exact (hnext a rfl s' hs).result_eq
  · exact hs.givesSame
  · exact hs.givesSame.trans (hnext a rfl s' hs).givesSame
  · exact fun _ _ => hs.catalogs
  · exact fun e he => ((hnext a rfl s' hs).catalogs e he).trans hs.catalogs

theorem Leaves.map (h : Leaves read fs s op x) (f : α → β) :
    Leaves read fs s (do return f (← op)) (do return f (← x)) := by
  obtain ⟨rfl, hs, hcatalogs⟩ := h
  constructor <;> rw [run_bind]
  all_goals rcases hop : op.run.run s with ⟨e | a, s'⟩ <;> rw [hop] at hs hcatalogs
  · rfl
  · rfl
  · exact hs
  · exact hs
  · exact fun _ _ => hcatalogs e rfl
  · exact fun _ he => by cases he

theorem Leaves.get {next : Store → Load α} (h : Leaves read fs s (next s) x) :
    Leaves read fs s (get >>= next) x :=
  ⟨h.result_eq, h.givesSame, h.catalogs⟩

theorem Reads.get {next : Store → Load α} (h : Reads read fs s (next s) x) :
    Reads read fs s (get >>= next) x :=
  h

theorem Reads.pure (read : ValueReader) (fs : FileSystem) (s : Store) (a : α) :
    Reads read fs s (pure a) (.ok a) :=
  ⟨rfl, .refl read fs s⟩

theorem reads_ofRead (read : ValueReader) (fs : FileSystem) (s : Store)
    (result : Except CatalogError α) : Reads read fs s (ofRead result) result := by
  cases result with
  | error e => exact ⟨rfl, .refl read fs s⟩
  | ok a => exact ⟨rfl, .refl read fs s⟩

/-- Reading and keeping what was read. -/
theorem reads_keep (result : Except CatalogError α) {store : α → Store}
    (hstore : ∀ a, result = .ok a → SameParts read fs s (store a)) :
    Reads read fs s (do let a ← ofRead result; set (store a); return a) result := by
  cases result with
  | error e => exact ⟨rfl, .refl read fs s⟩
  | ok a => exact ⟨rfl, hstore a rfl⟩

end

theorem reads_loadEntryPoints (read : ValueReader) (fs : FileSystem) (s : Store) :
    Reads read fs s (loadEntryPoints read fs) (s.givenEntryPoints read fs) := by
  have hkeep : ∀ points, s.givenEntryPoints read fs = .ok points →
      SameParts read fs s { s with entryPoints := some points } := fun points hgiven =>
    ⟨rfl, rfl, hgiven.symm, rfl⟩
  unfold loadEntryPoints
  refine .get ?_
  split
  · rename_i points hpoints
    rw [givenEntryPoints, hpoints]
    exact .pure read fs s points
  · rename_i horigin hnone
    have hgiven : s.givenEntryPoints read fs = .ok Bundled.entryPoints := by
      rw [givenEntryPoints, hnone, horigin]
      rfl
    rw [hgiven]
    exact ⟨rfl, hkeep _ hgiven⟩
  · rename_i dir horigin hnone
    have hgiven : s.givenEntryPoints read fs = readEntryPoints read fs dir := by
      rw [givenEntryPoints, hnone, horigin]
      rfl
    rw [hgiven] at hkeep ⊢
    exact reads_keep _ hkeep

theorem reads_loadCommonSanitizers (read : ValueReader) (fs : FileSystem) (s : Store) :
    Reads read fs s (loadCommonSanitizers read fs) (s.givenCommonSanitizers read fs) := by
  have hkeep : ∀ points, s.givenCommonSanitizers read fs = .ok points →
      SameParts read fs s { s with commonSanitizers := some points } := fun points hgiven =>
    ⟨rfl, rfl, rfl, hgiven.symm⟩
  unfold loadCommonSanitizers
  refine .get ?_
  split
  · rename_i points hpoints
    rw [givenCommonSanitizers, hpoints]
    exact .pure read fs s points
  · rename_i horigin hnone
    have hgiven : s.givenCommonSanitizers read fs = .ok Bundled.commonSanitizers := by
      rw [givenCommonSanitizers, hnone, horigin]
      rfl
    rw [hgiven]
    exact ⟨rfl, hkeep _ hgiven⟩
  · rename_i dir horigin hnone
    have hgiven : s.givenCommonSanitizers read fs = readSanitizers read fs dir "common" := by
      rw [givenCommonSanitizers, hnone, horigin]
      rfl
    rw [hgiven] at hkeep ⊢
    exact reads_keep _ hkeep

theorem reads_loadExitPoints (read : ValueReader) (fs : FileSystem) (s : Store)
    (v : Vulnerability) :
    Reads read fs s (loadExitPoints read fs v) (exitPointsOf read fs s.origin v) := by
  unfold loadExitPoints
  refine .get ?_
  cases s.origin with
  | bundled => exact .pure read fs s _
  | directory dir => exact reads_ofRead read fs s _

theorem reads_loadSanitizers (read : ValueReader) (fs : FileSystem) (s : Store)
    (v : Vulnerability) :
    Reads read fs s (loadSanitizers read fs v) (s.givenSanitizers read fs v) := by
  unfold loadSanitizers givenSanitizers
  refine (reads_loadCommonSanitizers read fs s).bind fun common _ s' hs => .get ?_
  rw [hs.origin]
  cases s.origin with
  | bundled => exact .pure read fs s' _
  | directory dir => exact (reads_ofRead read fs s' _).bind fun own _ s'' _ => .pure read fs s'' _

/-- **Loading a catalog** gives what the store gives, and leaves a store that gives the same for
every family. -/
theorem leaves_load (read : ValueReader) (fs : FileSystem) (s : Store) (v : Vulnerability) :
    Leaves read fs s (load read fs v) (s.given read fs v) := by
  unfold load
  refine .get ?_
  split
  · rename_i catalog hkept
    rw [given_of_some hkept]
    exact (Reads.pure read fs s catalog).leaves
  · rename_i hnone
    have hparts : s.given read fs v = _ := given_of_none hnone
    rw [hparts]
    refine .bind (reads_loadEntryPoints read fs s) fun entryPoints hentry s₁ h₁ => ?_
    rw [← h₁.origin]
    refine .bind (reads_loadExitPoints read fs s₁ v) fun exitPoints hexit s₂ h₂ => ?_
    have hsanitizers := (h₁.trans h₂).givesSame.sanitizers v
    rw [← hsanitizers]
    refine .bind (reads_loadSanitizers read fs s₂ v) fun sanitizers hown s₃ h₃ =>
      ⟨rfl, ?_, fun _ he => by cases he⟩
    -- all parts were given, so the catalog that is kept now is the one that was given all along
    refine givesSame_insert ?_
    rw [((h₁.trans h₂).trans h₃).givesSame.catalogs v, hparts, hentry, ← h₁.origin, hexit,
      ← hsanitizers, hown]
    rfl

/-- What comes of loading the catalog of a family. -/
def loaded (read : ValueReader) (fs : FileSystem) (s : Store) (v : Vulnerability) :
    Except CatalogError Catalog :=
  ((load read fs v).run.run s).1

theorem GivesSame.loaded (h : GivesSame read fs s s') (v : Vulnerability) :
    s'.loaded read fs v = s.loaded read fs v :=
  calc s'.loaded read fs v = s'.given read fs v := (leaves_load read fs s' v).result_eq
    _ = s.given read fs v := h.catalogs v
    _ = s.loaded read fs v := (leaves_load read fs s v).result_eq.symm

/-- Loading again gives the same, and so does what it leaves. -/
theorem GivesSame.exists_load (h : GivesSame read fs s s') (v : Vulnerability) :
    ∃ s'', (load read fs v).run.run s' = (s.loaded read fs v, s'') ∧ GivesSame read fs s s'' :=
  ⟨((load read fs v).run.run s').2, Prod.ext (h.loaded v) rfl,
    h.trans (leaves_load read fs s' v).givesSame⟩

/-! ### Stores that cache a file system -/

variable {origin : Origin}

/-- **A store caches a file system** exactly if it gives what an empty store gives there. -/
theorem caches_iff_givesSame : Caches read fs origin s ↔ GivesSame read fs { origin } s := by
  constructor
  · rintro ⟨rfl, hentry, hcommon, hcatalogs⟩
    have hentry' : s.givenEntryPoints read fs = entryPointsOf read fs s.origin := by
      unfold givenEntryPoints
      split
      · rename_i points hpoints
        exact (hentry points hpoints).symm
      · rfl
    have hcommon' : s.givenCommonSanitizers read fs = commonSanitizersOf read fs s.origin := by
      unfold givenCommonSanitizers
      split
      · rename_i points hpoints
        exact (hcommon points hpoints).symm
      · rfl
    refine ⟨rfl, hentry', hcommon', fun v => ?_⟩
    cases hkept : s.catalogs.get? v with
    | some catalog => exact (given_of_some hkept).trans (hcatalogs v catalog hkept).symm
    | none =>
      rw [given_of_none hkept, givenSanitizers, hentry', hcommon']
      rfl
  · intro h
    refine ⟨h.origin, fun points hpoints => ?_, fun points hpoints => ?_, fun v catalog hkept => ?_⟩
    · rw [← show _ = entryPointsOf read fs origin from h.entryPoints, givenEntryPoints, hpoints]
    · rw [← show _ = commonSanitizersOf read fs origin from h.commonSanitizers,
        givenCommonSanitizers, hpoints]
    · exact (h.catalogs v).symm.trans (given_of_some hkept)

/-- An operation on a store gives a result and leaves a store that caches the file system. -/
def Yields {α : Type} (read : ValueReader) (fs : FileSystem) (origin : Origin) (s : Store)
    (op : Load α) (result : Except CatalogError α) : Prop :=
  (op.run.run s).1 = result ∧ Caches read fs origin (op.run.run s).2

theorem Leaves.yields {α : Type} {op : Load α} {x : Except CatalogError α}
    (h : Leaves read fs s op x) (hs : Caches read fs origin s) : Yields read fs origin s op x :=
  ⟨h.result_eq, caches_iff_givesSame.2 ((caches_iff_givesSame.1 hs).trans h.givesSame)⟩

/-- **Loading a catalog** from a store that caches the files gives what would be read. -/
theorem yields_load (h : Caches read fs origin s) (v : Vulnerability) :
    Yields read fs origin s (load read fs v) (catalogOf read fs origin v) := by
  have hgiven : s.given read fs v = catalogOf read fs origin v :=
    (caches_iff_givesSame.1 h).catalogs v
  exact hgiven ▸ (leaves_load read fs s v).yields h

/-! ### Families and their catalogs -/

/-- Every catalog is kept under the family that it is for. -/
def Filed (s : Store) : Prop :=
  ∀ v catalog, s.catalogs.get? v = some catalog → catalog.vulnerability = v

/-- A catalog that a store gives is one that it keeps, or is put together for the family. -/
theorem kept_or_read_of_given {v : Vulnerability} {catalog : Catalog}
    (h : s.given read fs v = .ok catalog) :
    s.catalogs.get? v = some catalog ∨
      exitPointsOf read fs s.origin v = .ok catalog.exitPoints ∧ catalog.vulnerability = v := by
  cases hkept : s.catalogs.get? v with
  | some kept =>
    rw [given_of_some hkept] at h
    exact .inl (congrArg some (Except.ok.inj h))
  | none =>
    rw [given_of_none hkept] at h
    obtain ⟨entryPoints, -, h⟩ := bind_eq_ok_iff.1 h
    obtain ⟨exitPoints, hexit, h⟩ := bind_eq_ok_iff.1 h
    obtain ⟨sanitizers, -, h⟩ := bind_eq_ok_iff.1 h
    cases h
    exact .inr ⟨hexit, rfl⟩

/-- What a store keeps, a store that gives the same gives. -/
theorem GivesSame.given_of_kept (h : GivesSame read fs s s') {v : Vulnerability} {catalog : Catalog}
    (hkept : s'.catalogs.get? v = some catalog) : s.given read fs v = .ok catalog :=
  (h.catalogs v).symm.trans (given_of_some hkept)

theorem Filed.given (h : s.Filed) {v : Vulnerability} {catalog : Catalog}
    (hgiven : s.given read fs v = .ok catalog) : catalog.vulnerability = v := by
  rcases kept_or_read_of_given hgiven with hkept | ⟨-, hv⟩
  · exact h v catalog hkept
  · exact hv

theorem Filed.loaded (h : s.Filed) {v : Vulnerability} {catalog : Catalog}
    (hloaded : s.loaded read fs v = .ok catalog) : catalog.vulnerability = v :=
  h.given ((leaves_load read fs s v).result_eq.symm.trans hloaded)

theorem Filed.of_givesSame (h : s.Filed) (hsame : GivesSame read fs s s') : s'.Filed :=
  fun _ _ hkept => h.given (hsame.given_of_kept hkept)

end

end TaintFlow.Catalog.Store
