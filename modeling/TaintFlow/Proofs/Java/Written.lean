import TaintFlow.Proofs.Java.Visits

/-!
# Assignments and variables that a body writes

`Tree.written` lists the assignments in a body, and the variables without a value that its declarations
introduce, as they stand in the text.  What belongs to other declarations, to types, annotations and
parameters is left out, and so are the labels of statement switches; of a switch in an expression only
the assignments count, since its blocks are not read as statements.

* `written_subset_events` : nothing of this is missed when the body is read.
-/

namespace TaintFlow.Java

open TaintFlow.Code

namespace Tree

/-- The assignment at a node itself, or the variables that it declares without a value. -/
def writes (statement : Bool) (t : Tree) : List Event :=
  if t.type == "assignment_expression" then [.assignment t]
  else if statement && t.type == "local_variable_declaration" then
    (t.childrenIn "declarator").flatMap fun d =>
      if (d.1.child? "value").isSome then []
      else (d.1.child? "name").toList.map fun n => .declaration .localVar n.1 none
  else []

/-- The assignments that a body makes itself, and the variables that it declares without a value;
`statement` tells whether the node is read as a statement. -/
def written (statement : Bool) (t : Tree) : List Event :=
  if t.isHidden then []
  else
    t.writes statement ++
      (t.content.filter fun c => !t.conceals statement c.1).flatMap fun c =>
        written (t.readsStatement statement c.1) c.1
termination_by t.size
decreasing_by exact c.2

/-- What is written in the children of a node. -/
def writtenInside (statement : Bool) (t : Tree) : List Event :=
  (t.content.filter fun c => !t.conceals statement c.1).flatMap fun c =>
    c.1.written (t.readsStatement statement c.1)

/-- What a child adds to it. -/
def writtenIn (statement : Bool) (t : Tree) (c : Subtree t) : List Event :=
  if c.1.isContent && !t.conceals statement c.1 then c.1.written (t.readsStatement statement c.1)
  else []

variable {t : Tree} {statement : Bool}

theorem written_of_isHidden (h : t.isHidden = true) : t.written statement = [] := by
  rw [written, if_pos h]

theorem written_eq (h : t.isHidden = false) :
    t.written statement = t.writes statement ++ t.writtenInside statement := by
  rw [written, h]
  rfl

theorem writtenInside_eq : t.writtenInside statement = t.pieces.flatMap (t.writtenIn statement) := by
  rw [writtenInside, content_eq_filter_pieces, List.filter_filter, flatMap_filter_ite]
  congr 1
  funext c
  rw [writtenIn, Bool.and_comm]

/-- Types of the nodes that write something themselves. -/
def writerTypes : List String :=
  ["assignment_expression", "local_variable_declaration"]

theorem written_of_type (hhidden : t.type ∉ hiddenTypes) (hplain : t.type ∉ writerTypes) :
    t.written statement = t.pieces.flatMap (t.writtenIn statement) := by
  simp only [writerTypes, List.mem_cons, List.not_mem_nil, or_false, not_or] at hplain
  have hwrites : t.writes statement = [] := by simp [writes, hplain]
  rw [written_eq (by simpa [isHidden] using hhidden), hwrites, List.nil_append, writtenInside_eq]

/-- A child that is looked at is not concealed. -/
theorem conceals_of_visits (hlambda : t.type ≠ "lambda_expression") {c : Tree}
    (h : t.visits statement c = true) : t.conceals statement c = false := by
  refine Bool.eq_false_iff.2 fun hconceals => ?_
  have hlabel : (statement = true ∧ t.type ∈ groupTypes) ∧ c.type = "switch_label" := by
    simpa [conceals, hlambda] using hconceals
  obtain ⟨⟨rfl, htype⟩, hlabel⟩ := hlabel
  simp only [groupTypes, List.mem_cons, List.not_mem_nil, or_false] at htype
  rcases htype with htype | htype <;> simp [visits, htype, hlabel] at h

end Tree

open TaintFlow.Java.Tree

/-- What is written is gathered where it is read. -/
def writtenGathering : Gathering Event where
  of := written
  inside := writtenInside
  share := writtenIn
  of_sealed h := by
    refine written_of_isHidden (List.contains_iff_mem.2 ?_)
    simp [hiddenTypes, h]
  of_empty hpieces h := by
    obtain ⟨hhidden, hplain⟩ := (by decide : ∀ type ∈ ";" :: leafTypes,
      type ∉ hiddenTypes ∧ type ∉ writerTypes) _ h
    rw [written_of_type hhidden hplain, hpieces]
    rfl
  of_part h := by
    obtain ⟨hhidden, hplain⟩ := (by decide : ∀ type ∈ partTypes,
      type ∉ hiddenTypes ∧ type ∉ writerTypes) _ h
    exact written_of_type hhidden hplain
  inside_eq _ := writtenInside_eq
  inside_creation {t first rest} htype hcontent := by
    have hannotating {c : Tree} (h : c.isAnnotating = true) : c.written false = [] := by
      refine written_of_isHidden (List.contains_iff_mem.2 ?_)
      simp [hiddenTypes, List.contains_iff_mem.1 h]
    have hopen (c : Tree) : t.conceals false c = false ∧ t.readsStatement false c = false := by
      simp [conceals, readsStatement, htype]
    simp only [writtenInside, hopen, hcontent, Bool.not_false, List.filter_true, List.flatMap_cons]
    congr 1
    refine List.flatMap_congr fun c _ => ?_
    split
    · rename_i h
      exact hannotating h
    · rfl
  share_of_not_content h := by simp [writtenIn, h]
  share_of_visits hlambda hcontent hvisits := by
    simp [writtenIn, hcontent, conceals_of_visits hlambda hvisits, readsStatement, hlambda]
  share_of_skipped hconf _ hc hvisits _ := by
    unfold writtenIn
    split
    · rename_i h
      obtain ⟨-, hconceals⟩ := Bool.and_eq_true_iff.1 h
      refine written_of_isHidden (isHidden_of_not_visits hconf id hc ?_ hvisits)
      simpa using hconceals
    · rfl

theorem entersLambdas_writtenGathering : writtenGathering.EntersLambdas := by
  intro t c htype hcontent
  simp [writtenGathering, writtenIn, hcontent, conceals, readsStatement, htype]

namespace Tree

variable {t : Tree} {mode : Mode}

/-- What a node writes itself happens when it is read. -/
theorem mem_events_of_mem_writes (hsuits : mode.Suits t) {e : Event}
    (he : e ∈ t.writes mode.isStatement) : e ∈ t.events mode := by
  have hexcluded {type : String} (htype : t.type = type)
      (hstmt : type ∉ "identifier" :: ";" :: statementTypes)
      (hblock : type ∉ ["block", "constructor_body"]) : mode = .expr := by
    cases mode with
    | expr => rfl
    | stmt => exact absurd (htype ▸ hsuits) hstmt
    | block => exact absurd (htype ▸ hsuits) hblock
  rw [events_eq]
  unfold writes at he
  split at he
  · rename_i hassign
    have htype := eq_of_beq hassign
    have hform : ExprForm.ofType t.type = .assignment := by rw [htype]; rfl
    rw [hexcluded htype (by decide) (by decide), script, exprScript, hform, Item.events_append]
    exact List.mem_append_right _ he
  · split at he
    · rename_i hdeclares
      obtain ⟨hstatement, htype⟩ := Bool.and_eq_true_iff.1 hdeclares
      have htype := eq_of_beq htype
      have hform : StmtForm.ofType t.type = .declaration := by rw [htype]; rfl
      have hmode : mode = .stmt := by
        cases mode with
        | expr => cases hstatement
        | stmt => rfl
        | block =>
          have hblock : "local_variable_declaration" ∈ ["block", "constructor_body"] := htype ▸ hsuits
          exact absurd hblock (by decide)
      obtain ⟨d, hd, he⟩ := List.mem_flatMap.1 he
      rw [hmode, script, stmtScript, hform]
      dsimp only
      rw [declarationScript, Item.events_flatMap]
      refine List.mem_flatMap.2 ⟨d, hd, ?_⟩
      split at he
      · cases he
      · rename_i hvalue
        obtain ⟨n, hn, rfl⟩ := List.mem_map.1 he
        rw [declaratorScript, Item.events_append, Option.mem_toList.1 hn,
          Option.not_isSome_iff_eq_none.1 hvalue]
        exact List.mem_append_right _ List.mem_cons_self
    · cases he

/-- **Nothing that a body writes is missed** when the body is read. -/
theorem written_subset_events (hconf : t.conforms = true) (hsuits : mode.Suits t) :
    ∀ e ∈ t.written mode.isStatement, e ∈ t.events mode := by
  induction hsize : t.size using Nat.strongRecOn generalizing t mode with
  | ind n ih =>
    intro e he
    cases hhidden : t.isHidden with
    | true =>
      rw [written_of_isHidden hhidden] at he
      cases he
    | false =>
      rw [written_eq hhidden] at he
      rcases List.mem_append.1 he with he | he
      · exact mem_events_of_mem_writes hsuits he
      · -- what is written inside is written in a node that the script visits
        have hopen : t.type ∉ sealedTypes ∧ t.type ∉ typeDeclarations := by
          simp only [isHidden, hiddenTypes, List.contains_eq_mem, decide_eq_false_iff_not,
            List.mem_append, not_or] at hhidden
          exact hhidden.1.1
        have hmatches := writtenGathering.matches_script hconf hsuits hopen.1 (fun _ => hopen.2)
          entersLambdas_writtenGathering
        obtain ⟨item, hitem, he⟩ := List.mem_flatMap.1 (hmatches.1.mem_iff.2 he)
        have hfits := fits_script hconf hsuits item hitem
        rw [events_eq]
        cases item with
        | event e => cases he
        | visit mode' c =>
          refine List.mem_flatMap.2 ⟨_, hitem, ?_⟩
          exact ih c.1.size (hsize ▸ c.2) (hfits.1.conforms hconf) hfits.2 rfl e he

end Tree

end TaintFlow.Java
