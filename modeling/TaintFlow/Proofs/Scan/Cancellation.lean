import TaintFlow.Proofs.Result
import TaintFlow.Proofs.Scan.Stages
import TaintFlow.Proofs.Workspace.Build
import TaintFlow.Readers

/-!
# Cancellation only cuts a scan short

Files, families, units and methods are gone through in four loops, and each of them asks the token
before every turn.  The loops are compared with the same loops without a token.  In each of them the
two runs have the same state, up to the token, or the token is spent and the findings so far are a
prefix of the others (`Outcome.CutOf`, `Scanner.CutOf`).  One turn keeps this up, and so does the
whole loop.

* `scan_truncated` : a scan with a token is the scan without one, or its result says that it was
  cancelled and has part of the findings.
* `cancelled_scan_truncates` : so cancellation takes findings away and does nothing else.
-/

namespace TaintFlow

open TaintFlow.Code TaintFlow.Files TaintFlow.Flow

/-! ### Building -/

namespace Workspace.Build

/-- The progress without its token. -/
def free (b : Build) : Build :=
  { b with cancellation := .never }

section

variable {ε : Type} (read : UnitReader ε) (fs : FileSystem) (endings : List String)

theorem free_step (b : Build) (path : String) :
    (b.step read fs path).free = b.free.step read fs path := by
  have htexts : b.free.texts = b.texts := rfl
  unfold step text
  rw [htexts]
  cases b.texts.get? path with
  | some text => rfl
  | none => cases fs.read path <;> rfl

/-- **Building with a token** is building without one, unless the token is spent in the end. -/
theorem run_free_or_spent (paths : List String) (b : Build) :
    (run read fs endings paths b).free = run read fs endings paths b.free ∨
      (run read fs endings paths b).cancellation.Spent := by
  induction paths generalizing b with
  | nil => exact .inl rfl
  | cons path paths ih =>
    by_cases h : b.cancellation.Spent
    · rw [run_of_spent read fs endings h]
      exact .inr h
    · have hfree := run_of_not_spent read fs endings (b := b.free) Cancellation.not_spent_never
        path paths
      rw [hfree, run_of_not_spent read fs endings h]
      split
      · have hstep := ih (step read fs { b with cancellation := b.cancellation.poll.2 } path)
        rwa [free_step] at hstep
      · exact ih { b with cancellation := b.cancellation.poll.2 }

end

end Workspace.Build

/-! ### Checking -/

namespace Verify

/-- The outcome without its token. -/
def Outcome.free (o : Outcome) : Outcome :=
  { o with cancellation := .never }

/-- An outcome with a token, beside the outcome that the same check has without one. -/
def Outcome.CutOf (o full : Outcome) : Prop :=
  o.free = full ∨ (o.cancellation.Spent ∧ o.findings <+: full.findings)

namespace Outcome.CutOf

variable {o full : Outcome}

theorem findings_prefix (h : o.CutOf full) : o.findings <+: full.findings := by
  rcases h with rfl | ⟨-, h⟩
  · exact List.prefix_rfl
  · exact h

/-- As long as the token is not spent, it makes no difference. -/
theorem free_eq (h : o.CutOf full) (hs : ¬ o.cancellation.Spent) : o.free = full :=
  h.resolve_right fun h => hs h.1

variable (E : Engine)

theorem checkMethods (unit : String) (ms : List Method) (h : o.CutOf full) :
    (Verify.checkMethods E unit ms o).CutOf (Verify.checkMethods E unit ms full) := by
  induction ms generalizing o full with
  | nil => exact h
  | cons m ms ih =>
    by_cases hs : o.cancellation.Spent
    · rw [checkMethods_of_spent E unit hs]
      exact .inr ⟨hs, h.findings_prefix.trans (findings_prefix_checkMethods E unit _ full)⟩
    · obtain rfl := h.free_eq hs
      rw [checkMethods_of_not_spent E unit hs,
        checkMethods_of_not_spent E unit Cancellation.not_spent_never, foldl_checkCall,
        foldl_checkCall]
      exact ih (.inl rfl)

theorem checkUnits (units : List String) (h : o.CutOf full) :
    (Verify.checkUnits E units o).CutOf (Verify.checkUnits E units full) := by
  induction units generalizing o full with
  | nil => exact h
  | cons unit units ih =>
    by_cases hs : o.cancellation.Spent
    · rw [checkUnits_of_spent E hs]
      exact .inr ⟨hs, h.findings_prefix.trans (findings_prefix_checkUnits E _ full)⟩
    · obtain rfl := h.free_eq hs
      rw [checkUnits_of_not_spent E unit hs,
        checkUnits_of_not_spent E unit Cancellation.not_spent_never]
      exact ih (checkMethods E unit _ (.inl rfl))

end Outcome.CutOf

/-- **Checking with a token** is checking without one, until the token is spent. -/
theorem run_cutOf (E : Engine) (units : List String) (c : Cancellation) :
    (run E units c).CutOf (run E units .never) :=
  .checkUnits E units (.inl rfl)

end Verify

/-! ### Searching -/

namespace Scanner

/-- The progress without its token. -/
def Search.free (s : Search) : Search :=
  { s with cancellation := .never }

/-- A search with a token, beside the same search without one.  A search whose token is spent has
not come to a fault. -/
def CutOf (cut full : Search × Option ScanFault) : Prop :=
  (cut.1.free = full.1 ∧ cut.2 = full.2) ∨
    (cut.1.cancellation.Spent ∧ cut.1.findings <+: full.1.findings ∧ cut.2 = none)

section

variable (read : ValueReader) (fs : FileSystem) (c : Config) (w : Workspace) (units : List String)

theorem search_of_spent {s : Search} (h : s.cancellation.Spent) (vs : List Vulnerability) :
    search read fs c w units vs s = (s, none) := by
  cases vs with
  | nil => rfl
  | cons v vs =>
    rw [search, Cancellation.poll_of_spent h]
    rfl

theorem search_of_not_spent {s s' : Search} {fault : Option ScanFault} {v : Vulnerability}
    (h : ¬ s.cancellation.Spent)
    (hone : searchOne read fs c w units v { s with cancellation := s.cancellation.poll.2 } =
      (s', fault)) (vs : List Vulnerability) :
    search read fs c w units (v :: vs) s =
      if fault.isNone then search read fs c w units vs s' else (s', fault) := by
  rw [search, Cancellation.poll_of_not_spent h]
  simp only [hone]
  cases fault <;> rfl

theorem findings_prefix_searchOne (v : Vulnerability) (s : Search) :
    s.findings <+: (searchOne read fs c w units v s).1.findings := by
  unfold searchOne
  split
  · split <;> exact List.prefix_rfl
  · exact List.prefix_append _ _

theorem findings_prefix_search (vs : List Vulnerability) (s : Search) :
    s.findings <+: (search read fs c w units vs s).1.findings := by
  induction vs generalizing s with
  | nil => exact List.prefix_rfl
  | cons v vs ih =>
    by_cases h : s.cancellation.Spent
    · simp only [search_of_spent read fs c w units h, List.prefix_rfl]
    · obtain ⟨⟨s', fault⟩, hone⟩ : ∃ p, searchOne read fs c w units v
          { s with cancellation := s.cancellation.poll.2 } = p := ⟨_, rfl⟩
      have hprefix := findings_prefix_searchOne read fs c w units v
        { s with cancellation := s.cancellation.poll.2 }
      rw [hone] at hprefix
      rw [search_of_not_spent read fs c w units h hone]
      split
      · exact hprefix.trans (ih s')
      · exact hprefix

/-- One family is looked for alike with and without a token, until it is spent. -/
theorem searchOne_cutOf (v : Vulnerability) (s : Search) :
    CutOf (searchOne read fs c w units v s) (searchOne read fs c w units v s.free) := by
  obtain ⟨⟨e | catalog, store⟩, hload⟩ :
      ∃ p, (Catalog.Store.load read fs v).run.run s.store = p := ⟨_, rfl⟩
  · rw [searchOne_of_error fs s hload, searchOne_of_error fs s.free hload]
    unfold Search.reject
    split <;> exact .inl ⟨rfl, rfl⟩
  · rw [searchOne_of_ok fs s hload, searchOne_of_ok fs s.free hload]
    rcases Verify.run_cutOf (engine c w catalog) units s.cancellation with hfree | ⟨hspent, hprefix⟩
    · refine .inl ⟨?_, rfl⟩
      change _ = s.free.add v store (Verify.run (engine c w catalog) units .never)
      rw [← hfree]
      rfl
    · exact .inr ⟨hspent, (List.prefix_append_right_inj _).2 hprefix, rfl⟩

/-- **Searching with a token** is searching without one, until the token is spent. -/
theorem search_cutOf (vs : List Vulnerability) (s : Search) :
    CutOf (search read fs c w units vs s) (search read fs c w units vs s.free) := by
  induction vs generalizing s with
  | nil => exact .inl ⟨rfl, rfl⟩
  | cons v vs ih =>
    by_cases h : s.cancellation.Spent
    · rw [search_of_spent read fs c w units h]
      exact .inr ⟨h, findings_prefix_search read fs c w units _ s.free, rfl⟩
    · obtain ⟨⟨s', fault⟩, hone⟩ : ∃ p, searchOne read fs c w units v
          { s with cancellation := s.cancellation.poll.2 } = p := ⟨_, rfl⟩
      obtain ⟨⟨full, fault'⟩, hfull⟩ : ∃ p, searchOne read fs c w units v s.free = p := ⟨_, rfl⟩
      have hcut := searchOne_cutOf read fs c w units v { s with cancellation := s.cancellation.poll.2 }
      rw [hone] at hcut
      change CutOf _ (searchOne read fs c w units v s.free) at hcut
      rw [hfull] at hcut
      rw [search_of_not_spent read fs c w units h hone,
        search_of_not_spent read fs c w units (s := s.free) Cancellation.not_spent_never hfull]
      rcases hcut with ⟨rfl, rfl⟩ | ⟨hspent, hprefix, rfl⟩
      · split
        · exact ih s'
        · exact .inl ⟨rfl, rfl⟩
      · -- the search ends at the next turn, while the other goes on
        rw [if_pos Option.isNone_none, search_of_spent read fs c w units hspent]
        refine .inr ⟨hspent, ?_, rfl⟩
        split
        · exact hprefix.trans (findings_prefix_search read fs c w units vs full)
        · exact hprefix

end

/-! ### Scanning -/

/-- A scan is the scan without a token, or its result says that it was cancelled and has part of the
findings. -/
def Truncated (cut full : Scanner × Except ScanFault ScanResult) : Prop :=
  cut = full ∨ ∃ r, cut.2 = .ok r ∧ r.cancelled = true ∧
    ∀ r', full.2 = .ok r' → r.findings.Sublist r'.findings

variable (s : Scanner) (fs : FileSystem)

/-- A result whose token is spent says that it was cancelled. -/
theorem cancelled_resultOf {target : String} {unread : List String} {b : Workspace.Build}
    {found : Search} (h : found.cancellation.Spent) :
    (resultOf target unread b found).cancelled = true :=
  h

theorem findings_resultOf_sublist {target : String} {unread : List String}
    {b b' : Workspace.Build} {found found' : Search}
    (h : found.findings.Sublist found'.findings) :
    (resultOf target unread b found).findings.Sublist
      (resultOf target unread b' found').findings :=
  ScanResult.findings_sorted_sublist h

/-- A search that was cut short ends in a cancelled result with part of the findings. -/
theorem truncated_of_spent {target : String} {unread : List String} {b b' : Workspace.Build}
    {found : Search} {full : Search × Option ScanFault} (hspent : found.cancellation.Spent)
    (hfindings : found.findings.Sublist full.1.findings) :
    Truncated (s.conclude target unread b (found, none))
      (s.conclude target unread b' full) := by
  refine .inr ⟨_, rfl, cancelled_resultOf hspent, ?_⟩
  obtain ⟨found', _ | fault⟩ := full
  · rintro r' ⟨rfl⟩
    exact findings_resultOf_sublist hfindings
  · rintro r' ⟨⟩

/-- A search that took every turn ends alike, unless its token is spent by now. -/
theorem truncated_of_free_eq {target : String} {unread : List String} {b : Workspace.Build}
    {cut full : Search × Option ScanFault} (hfree : cut.1.free = full.1)
    (hfault : cut.2 = full.2) :
    Truncated (s.conclude target unread b cut) (s.conclude target unread b.free full) := by
  obtain ⟨found, fault⟩ := cut
  obtain ⟨found', fault'⟩ := full
  obtain rfl : found.free = found' := hfree
  obtain rfl : fault = fault' := hfault
  cases fault with
  | some fault => exact .inl rfl
  | none =>
    by_cases hspent : found.cancellation.Spent
    · exact truncated_of_spent s hspent (List.Sublist.refl found.findings)
    · have hcancelled : found.cancellation.poll.1 = Cancellation.never.poll.1 :=
        Bool.eq_false_iff.2 hspent
      refine .inl ?_
      simp only [conclude, resultOf, hcancelled]
      rfl

/-- **A scan of collected files** is cut short by its token, or the token makes no difference. -/
theorem scanFiles_truncated (target : String) (files : List String) (c : Cancellation) :
    Truncated (s.scanFiles fs target files c) (s.scanFiles fs target files .never) := by
  rw [scanFiles_eq, scanFiles_eq]
  rcases Workspace.Build.run_free_or_spent s.reader fs s.config.endings
    ((readTexts fs files).1.map (·.1)) (s.startBuild fs target files c) with hfree | hspent
  · obtain hbuilt : s.built fs target files .never = (s.built fs target files c).free := hfree.symm
    rw [hbuilt]
    generalize s.built fs target files c = b
    have hcut := search_cutOf s.readers.document fs s.config b.workspace b.updated
      s.config.selected (s.startSearch b)
    rcases hcut with ⟨hfound, hfault⟩ | ⟨hspent, hprefix, hnone⟩
    · exact truncated_of_free_eq s hfound hfault
    · obtain ⟨found, hsearched⟩ : ∃ found, s.searched fs b = (found, none) :=
        ⟨_, Prod.ext rfl hnone⟩
      rw [hsearched]
      change (s.searched fs b).1.cancellation.Spent at hspent
      change (s.searched fs b).1.findings <+: (s.searched fs b.free).1.findings at hprefix
      rw [hsearched] at hspent hprefix
      exact truncated_of_spent s hspent hprefix.sublist
  · -- the search stops before its first turn, so nothing is reported about a partial graph
    have hnone : s.searched fs (s.built fs target files c) =
        (s.startSearch (s.built fs target files c), none) :=
      search_of_spent _ _ _ _ _ hspent _
    rw [hnone]
    exact truncated_of_spent s hspent (List.nil_sublist _)

/-- **A scan with a token** is the scan without one, or it says that it was cancelled and has part
of the findings. -/
theorem scan_truncated (path : String) (excludes : List Value) (c : Cancellation) :
    Truncated (s.scan fs path excludes c) (s.scan fs path excludes .never) := by
  rw [scan_eq, scan_eq]
  split
  · split
    · exact .inl rfl
    · exact scanFiles_truncated s.cleared fs _ _ c
  · exact .inl rfl

/-- A scan whose result is not cancelled is the scan without a token. -/
theorem scan_eq_never {path : String} {excludes : List Value} {c : Cancellation}
    (h : ∀ r, (s.scan fs path excludes c).2 = .ok r → r.cancelled = false) :
    s.scan fs path excludes c = s.scan fs path excludes .never := by
  rcases s.scan_truncated fs path excludes c with heq | ⟨r, hr, hcancelled, -⟩
  · exact heq
  · rw [h r hr] at hcancelled
    cases hcancelled

/-- **Cancellation only truncates.**  A scan that gives a result without a token gives one with any
token.  Its findings are some of the findings of the first, in the same order, and a result that is
not cancelled is the same result.  A scan that ends in a fault without a token ends in the same
fault, or it was cancelled before.  The readers of the scanner may be any. -/
theorem cancelled_scan_truncates (path : String) (excludes : List Value) (c : Cancellation) :
    (∀ full, (s.scan fs path excludes .never).2 = .ok full →
      ∃ r, (s.scan fs path excludes c).2 = .ok r ∧ r.findings.Sublist full.findings ∧
        (r.cancelled = false → r = full)) ∧
    (∀ fault, (s.scan fs path excludes .never).2 = .error fault →
      (s.scan fs path excludes c).2 = .error fault ∨
        ∃ r, (s.scan fs path excludes c).2 = .ok r ∧ r.cancelled = true) := by
  rcases s.scan_truncated fs path excludes c with heq | ⟨r, hr, hcancelled, hfindings⟩
  · rw [heq]
    exact ⟨fun full hfull => ⟨full, hfull, List.Sublist.refl _, fun _ => rfl⟩,
      fun fault hfault => .inl hfault⟩
  · refine ⟨fun full hfull => ⟨r, hr, hfindings full hfull, fun hnot => ?_⟩,
      fun fault _ => .inr ⟨r, hr, hcancelled⟩⟩
    rw [hnot] at hcancelled
    cases hcancelled

/-- A class with two methods that hand on what comes in. -/
def twoSinks : Entry :=
  .file "class A\x7bvoid f()\x7bout(in());\x7dvoid g()\x7bout(in());\x7d\x7d".toUTF8

/-- A scanner that has loaded a catalog with one entry point and one exit point. -/
def inOutScanner : Scanner :=
  let catalog : Catalog :=
    { vulnerability := .commandInjection
      entryPoints := [⟨"A", "in", []⟩]
      exitPoints := [⟨⟨"A", "out", ["T"]⟩, [{}]⟩] }
  { new .standard sampleConfig with store := { catalogs := ⟨[(.commandInjection, catalog)]⟩ } }

/-- When the token stops the scan before the second method, the finding in the first one is left. -/
theorem cancelled_scan_twoSinks :
    ∃ full r, (inOutScanner.scan (sampleFiles twoSinks) "/w" [] .never).2 = .ok full ∧
      (inOutScanner.scan (sampleFiles twoSinks) "/w" [] (.after 4)).2 = .ok r ∧
      r.findings.length = 1 ∧ r.cancelled = true ∧ r.findings.Sublist full.findings := by
  have hall : gives (fun _ => true)
      (inOutScanner.scan (sampleFiles twoSinks) "/w" [] .never).2 = true := by
    decide +kernel
  have hone : gives (fun r => r.findings.length = 1 ∧ r.cancelled)
      (inOutScanner.scan (sampleFiles twoSinks) "/w" [] (.after 4)).2 = true := by
    decide +kernel
  obtain ⟨full, hfull, -⟩ := exists_of_gives hall
  obtain ⟨r, hr, hcut⟩ := exists_of_gives hone
  obtain ⟨hlength, hcancelled⟩ := of_decide_eq_true hcut
  obtain ⟨r', hr', hsublist, -⟩ := (cancelled_scan_truncates inOutScanner
    (sampleFiles twoSinks) "/w" [] (.after 4)).1 full hfull
  obtain rfl : r = r' := Except.ok.inj (hr.symm.trans hr')
  exact ⟨full, r, hfull, hr, hlength, hcancelled, hsublist⟩

end Scanner

end TaintFlow
