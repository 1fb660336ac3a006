import TaintFlow.Proofs.CallGraph.Sources
import TaintFlow.Workspace

/-!
# Keeping a workspace up to date is rebuilding it

A workspace is changed by edits: a file gets a new text, which may be unreadable, or it goes away.
After any edits it is what it would be if it had been built once, from the files that are left.

* `survivors` : the updates that no later edit of the same file undoes, if their texts can be read.
* `Reflects` : what the tables of a workspace hold, in terms of the sources behind it.  Every edit
  keeps this up, and it leaves no choice of the tables.
* `run_same_rebuild` : a run of edits and the run of its survivors lead to the same tables.
-/

namespace TaintFlow

open TaintFlow.Code

/-- A reader whose units have the path of their file and give values to their own variables. -/
def UnitReader.Faithful {ε : Type} (read : UnitReader ε) : Prop :=
  ∀ path text u, read path text = .ok u → u.path = path ∧ ∀ b ∈ u.bindings.keys, b.unit = path

namespace Workspace

/-- A change of one file. -/
inductive Edit where
  | update (path text : String)
  | remove (path : String)

/-- The file that an edit changes. -/
def Edit.path : Edit → String
  | update path _ => path
  | remove path => path

section

variable {ε : Type} (read : UnitReader ε)

/-- The workspace after an edit. -/
def Edit.apply (w : Workspace) : Edit → Workspace
  | update path text => (w.update read path text).1
  | remove path => w.removeUnit path

/-- The workspace after edits of an empty one. -/
def run (edits : List Edit) : Workspace :=
  edits.foldl (Edit.apply read) {}

/-- The updates that stay: their texts can be read, and no later edit is of the same file. -/
def survivors : List Edit → List Edit
  | [] => []
  | .update path text :: rest =>
    if (read path text).isOk ∧ ∀ e ∈ rest, e.path ≠ path then .update path text :: survivors rest
    else survivors rest
  | .remove _ :: rest => survivors rest

/-- The source behind an edit, if there is one. -/
def source? : Edit → Option SourceUnit
  | .update path text => (read path text).toOption
  | .remove _ => none

/-- The sources behind a workspace after an edit. -/
def track (us : List SourceUnit) (e : Edit) : List SourceUnit :=
  match source? read e with
  | some u => CallGraph.withLast u us
  | none => CallGraph.without e.path us

end

/-! ### The sources behind a workspace -/

/-- The lines that a source marks as trusted, if there are any. -/
def trustedLines? (u : SourceUnit) : Option (List ℕ) :=
  if u.trustedLines.isEmpty then none else some u.trustedLines.eraseDups

/-- The workspace holds what the sources say, in their order. -/
structure Reflects (w : Workspace) (us : List SourceUnit) : Prop where
  nodup : (us.map (·.path)).Nodup
  owns : ∀ u ∈ us, CallGraph.OwnsVariables u
  tidy : w.graph.Tidy
  graph : w.graph.IsSum us
  trusted : CallGraph.Lists w.trusted.lines trustedLines? us

theorem reflects_empty : Reflects {} [] :=
  ⟨List.nodup_nil, nofun, CallGraph.tidy_empty, CallGraph.isSum_empty, rfl⟩

namespace Reflects

variable {w : Workspace} {us : List SourceUnit}

theorem removeUnit (h : Reflects w us) (path : String) :
    Reflects (w.removeUnit path) (CallGraph.without path us) where
  nodup := CallGraph.nodup_without h.nodup path
  owns u hu := h.owns u (List.mem_filter.1 hu).1
  tidy := h.tidy.removeUnit path
  graph := h.graph.removeUnit h.tidy.listed h.nodup h.owns path
  trusted := h.trusted.erase path

/-- Messages are not among what the sources say. -/
theorem addError (h : Reflects w us) (message : String) : Reflects (w.addError message) us :=
  ⟨h.nodup, h.owns, h.tidy, h.graph, h.trusted⟩

theorem replaceUnit (h : Reflects w us) {u : SourceUnit} (hu : CallGraph.OwnsVariables u) :
    Reflects (w.replaceUnit u) (CallGraph.withLast u us) where
  nodup := CallGraph.nodup_withLast h.nodup u
  owns u' hu' := by
    rcases List.mem_append.1 hu' with hu' | hu'
    · exact h.owns u' (List.mem_filter.1 hu').1
    · rwa [List.mem_singleton.1 hu']
  tidy := h.tidy.replaceUnit u
  graph := h.graph.replaceUnit h.tidy.listed h.nodup h.owns hu
  trusted := by
    have herase := h.trusted.erase u.path
    change CallGraph.Lists (w.trusted.replaceUnit u.path u.trustedLines).lines _ _
    unfold TrustedLines.replaceUnit
    by_cases hnil : u.trustedLines.isEmpty = true
    · rw [if_pos hnil]
      exact herase.extend_none (if_pos hnil)
    · rw [if_neg hnil]
      exact herase.extend_some (if_neg hnil) (CallGraph.not_mem_paths_without u.path us)

/-- **One edit** changes the sources behind a workspace and nothing else of what it holds. -/
theorem apply {ε : Type} {read : UnitReader ε} (hread : read.Faithful) (h : Reflects w us)
    (e : Edit) : Reflects (e.apply read w) (track read us e) := by
  cases e with
  | remove path => exact h.removeUnit path
  | update path text =>
    simp only [Edit.apply, update, track, source?]
    cases hu : read path text with
    | error f => exact (h.addError _).removeUnit path
    | ok u =>
      obtain ⟨rfl, hb⟩ := hread path text u hu
      exact h.replaceUnit hb

/-- Edits keep up what the workspace says of its sources. -/
theorem foldl {ε : Type} {read : UnitReader ε} (hread : read.Faithful) (h : Reflects w us)
    (edits : List Edit) :
    Reflects (edits.foldl (Edit.apply read) w) (edits.foldl (track read) us) := by
  induction edits generalizing w us with
  | nil => exact h
  | cons e edits ih => exact ih (h.apply hread e)

/-- The sources leave no choice of the tables. -/
theorem same {w' : Workspace} (h : Reflects w us) (h' : Reflects w' us) :
    w.graph.Same w'.graph ∧ w.trusted = w'.trusted :=
  ⟨h.graph.same h'.graph h.tidy h'.tidy,
    congrArg (fun entries => TrustedLines.mk ⟨entries⟩) (h.trusted.trans h'.trusted.symm)⟩

end Reflects

/-! ### Survivors -/

section

variable {ε : Type} {read : UnitReader ε}

theorem mem_of_mem_survivors {edits : List Edit} {e : Edit} (h : e ∈ survivors read edits) :
    e ∈ edits := by
  induction edits with
  | nil => cases h
  | cons a rest ih =>
    cases a with
    | remove path => exact List.mem_cons_of_mem _ (ih h)
    | update path text =>
      rw [survivors] at h
      split at h
      · rcases List.mem_cons.1 h with rfl | h
        · exact List.mem_cons_self
        · exact List.mem_cons_of_mem _ (ih h)
      · exact List.mem_cons_of_mem _ (ih h)

theorem survivors_survivors (edits : List Edit) :
    survivors read (survivors read edits) = survivors read edits := by
  induction edits with
  | nil => rfl
  | cons a rest ih =>
    cases a with
    | remove path => exact ih
    | update path text =>
      rw [survivors]
      split
      · rename_i h
        rw [survivors, if_pos ⟨h.1, fun e he => h.2 e (mem_of_mem_survivors he)⟩, ih]
      · exact ih

theorem filter_without (e : Edit) (rest : List Edit) (us : List SourceUnit) :
    (CallGraph.without e.path us).filter (fun u => ∀ e' ∈ rest, e'.path ≠ u.path) =
      us.filter fun u => ∀ e' ∈ e :: rest, e'.path ≠ u.path := by
  rw [CallGraph.without, List.filter_filter]
  refine List.filter_congr fun u _ => ?_
  rw [Bool.eq_iff_iff]
  simp only [Bool.and_eq_true, decide_eq_true_iff, List.forall_mem_cons]
  rw [and_comm, ne_comm]

/-- The sources after some edits: those before that no edit touches, and the survivors. -/
theorem foldl_track (hread : read.Faithful) (edits : List Edit) (us : List SourceUnit) :
    edits.foldl (track read) us = us.filter (fun u => ∀ e ∈ edits, e.path ≠ u.path) ++
      (survivors read edits).filterMap (source? read) := by
  induction edits generalizing us with
  | nil => simp [survivors]
  | cons a rest ih =>
    rw [List.foldl_cons, ih, ← filter_without a rest us]
    cases a with
    | remove path => rfl
    | update path text =>
      cases hu : read path text with
      | error f =>
        have hno : ¬ ((read path text).isOk = true ∧ ∀ e ∈ rest, e.path ≠ path) := by
          rw [hu]
          exact fun h => nomatch h.1
        rw [survivors, if_neg hno, track, source?, hu]
        rfl
      | ok u =>
        have hsource : source? read (.update path text) = some u := by
          rw [source?, hu]
          rfl
        have htrack : track read us (.update path text) = CallGraph.withLast u us := by
          rw [track, hsource]
        obtain ⟨rfl, -⟩ := hread path text u hu
        rw [htrack, CallGraph.withLast, List.filter_append, List.append_assoc, survivors]
        -- the source stays at the end unless a later edit takes it away again
        by_cases hlast : ∀ e ∈ rest, e.path ≠ u.path
        · have hkept : [u].filter (fun u => ∀ e ∈ rest, e.path ≠ u.path) = [u] :=
            List.filter_eq_self.2 (by simpa using hlast)
          rw [if_pos ⟨by rw [hu]; rfl, hlast⟩, List.filterMap_cons_some hsource, hkept]
          rfl
        · have hgone : [u].filter (fun u => ∀ e ∈ rest, e.path ≠ u.path) = [] :=
            List.filter_eq_nil_iff.2 (by simpa using hlast)
          rw [if_neg fun h => hlast h.2, hgone]
          rfl

theorem reflects_run (hread : read.Faithful) (edits : List Edit) :
    Reflects (run read edits) ((survivors read edits).filterMap (source? read)) := by
  have h := reflects_empty.foldl hread edits
  rwa [foldl_track hread] at h

end

/-- **Keeping up to date is rebuilding.**  After any edits, the tables of a workspace are those of a
new workspace that is given the surviving updates alone, in their order. -/
theorem run_same_rebuild {ε : Type} (read : UnitReader ε) (hread : read.Faithful)
    (edits : List Edit) :
    (run read edits).graph.Same (run read (survivors read edits)).graph ∧
      (run read edits).trusted = (run read (survivors read edits)).trusted := by
  have h := reflects_run hread (survivors read edits)
  rw [survivors_survivors] at h
  exact (reflects_run hread edits).same h

/-- A reader that makes one variable of a text and cannot read an empty one. -/
def oneVariable : UnitReader Unit := fun path text =>
  if text = "" then .error ()
  else .ok { path, bindings := ⟨[({ unit := path, name := "x", kind := .field },
    .literal ⟨text, path, 1, 0⟩ .stringLiteral)]⟩, trustedLines := [1] }

theorem faithful_oneVariable : oneVariable.Faithful := by
  intro path text u hu
  unfold oneVariable at hu
  split at hu
  · cases hu
  · cases hu
    simp [Table.keys]

/-- One file is updated again, one becomes unreadable, and one goes away and comes back. -/
def mixedEdits : List Edit :=
  [.update "A" "1", .update "B" "1", .update "C" "1", .update "A" "2", .remove "C", .update "B" "",
    .update "C" "2"]

/-- Of the mixed edits two survive, and they alone lead to the same workspace. -/
theorem run_mixedEdits :
    survivors oneVariable mixedEdits = [.update "A" "2", .update "C" "2"] ∧
      (run oneVariable mixedEdits).graph.Same
        (run oneVariable [.update "A" "2", .update "C" "2"]).graph := by
  have hsurvivors : survivors oneVariable mixedEdits = [.update "A" "2", .update "C" "2"] := rfl
  exact ⟨hsurvivors, hsurvivors ▸ (run_same_rebuild oneVariable faithful_oneVariable mixedEdits).1⟩

end Workspace

end TaintFlow
