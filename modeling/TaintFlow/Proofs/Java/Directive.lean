import TaintFlow.Java.Unit
import TaintFlow.Proofs.Java.Source
import TaintFlow.Proofs.Table
import TaintFlow.TrustedLines

/-!
# Lines that are marked as trusted

A marker is a comment that begins with the directive.  One that only blanks precede leads its line
and marks the next line; any other trails code and marks its own.  Lines are counted at every line
end, and the positions of expressions at line feeds, so that a marker covers the expressions of its
row only if no stray line end stands above it.

* `beforeDirective?_spec` : the search stops at the first marker of a line;
* `coveredLine?_iff` : what a line marks, in terms of the markers it has;
* `mem_trustedLines_iff` : the lines of a text that are marked;
* `marks_append_return` : the carriage return of a pair changes nothing.
-/

namespace TaintFlow.Java

open TaintFlow.Code TaintFlow.Text

/-- The text of a comment begins, after blanks, with the directive as a whole word. -/
def Directs (directive comment : List Char) : Prop :=
  ∃ blanks rest, comment = blanks ++ directive ++ rest ∧ (∀ c ∈ blanks, isBlank c = true) ∧
    endsWord rest = true

/-- A comment with the directive stands on `line` after `before`. -/
def MarkerAfter (directive before line : List Char) : Prop :=
  ∃ c comment, line = before ++ '/' :: c :: comment ∧ (c = '/' ∨ c = '*') ∧
    Directs directive comment

/-- Only blanks precede a marker of the line. -/
def LeadingMarker (directive line : List Char) : Prop :=
  ∃ before, MarkerAfter directive before line ∧ ∀ c ∈ before, isBlank c = true

/-- Something else than blanks precedes a marker of the line. -/
def TrailingMarker (directive line : List Char) : Prop :=
  ∃ before, MarkerAfter directive before line ∧ ∃ c ∈ before, isBlank c = false

/-- Line `n` is the one that the markers of line `number` mark.  If one of them leads the line, it
alone counts. -/
def Marks (directive line : List Char) (number n : Nat) : Prop :=
  (LeadingMarker directive line ∧ n = number + 1) ∨
    (TrailingMarker directive line ∧ ¬ LeadingMarker directive line ∧ n = number)

/-! ### The first marker of a line -/

theorem beginsWith_iff {directive cs : List Char} :
    beginsWith directive cs = true ↔ Directs directive cs := by
  induction cs with
  | nil =>
    rw [beginsWith, List.isEmpty_iff]
    constructor
    · rintro rfl
      exact ⟨[], [], rfl, by simp, rfl⟩
    · rintro ⟨blanks, rest, hcs, -⟩
      exact (List.append_eq_nil_iff.mp (List.append_eq_nil_iff.mp hcs.symm).1).2
  | cons c cs ih =>
    rw [beginsWith, Bool.or_eq_true, Bool.and_eq_true, Bool.and_eq_true, ih,
      List.isPrefixOf_iff_prefix]
    constructor
    · rintro (⟨⟨rest, hrest⟩, hend⟩ | ⟨hblank, blanks, rest, rfl, hblanks, hend⟩)
      · rw [← hrest, List.drop_left] at hend
        exact ⟨[], rest, hrest.symm, by simp, hend⟩
      · exact ⟨c :: blanks, rest, rfl, List.forall_mem_cons.mpr ⟨hblank, hblanks⟩, hend⟩
    · rintro ⟨blanks, rest, hcs, hblanks, hend⟩
      cases blanks with
      | nil =>
        rw [hcs, List.nil_append, List.drop_left]
        exact .inl ⟨⟨rest, rfl⟩, hend⟩
      | cons b blanks =>
        obtain ⟨rfl, rfl⟩ := List.cons.inj hcs
        obtain ⟨hblank, hblanks⟩ := List.forall_mem_cons.mp hblanks
        exact .inr ⟨hblank, blanks, rest, rfl, hblanks, hend⟩

theorem markerAfter_cons {directive before line : List Char} {b c : Char} :
    MarkerAfter directive (b :: before) (c :: line) ↔
      b = c ∧ MarkerAfter directive before line := by
  constructor
  · rintro ⟨d, comment, hline, hd⟩
    obtain ⟨rfl, rfl⟩ := List.cons.inj hline
    exact ⟨rfl, d, comment, rfl, hd⟩
  · rintro ⟨rfl, d, comment, rfl, hd⟩
    exact ⟨d, comment, rfl, hd⟩

theorem not_markerAfter_nil {directive before : List Char} : ¬ MarkerAfter directive before [] := by
  rintro ⟨d, comment, hline, -⟩
  cases before <;> cases hline

/-- What the search for a marker finds: the text before the first one, or that there is none. -/
def Finds (directive line passed : List Char) : Option (List Char) → Prop
  | none => ∀ before, ¬ MarkerAfter directive before line
  | some found => ∃ before, found = before.reverse ++ passed ∧ MarkerAfter directive before line ∧
      ∀ other, MarkerAfter directive other line → before <+: other

theorem Finds.cons {directive line passed : List Char} {c : Char} {found : Option (List Char)}
    (h : Finds directive line (c :: passed) found) (hnot : ¬ MarkerAfter directive [] (c :: line)) :
    Finds directive (c :: line) passed found := by
  cases found with
  | none =>
    intro before hbefore
    cases before with
    | nil => exact hnot hbefore
    | cons b before => exact h before (markerAfter_cons.mp hbefore).2
  | some found =>
    obtain ⟨before, rfl, hbefore, hfirst⟩ := h
    refine ⟨c :: before, by simp, markerAfter_cons.mpr ⟨rfl, hbefore⟩, fun other hother => ?_⟩
    cases other with
    | nil => exact absurd hother hnot
    | cons b other =>
      obtain ⟨hb, hrest⟩ := markerAfter_cons.mp hother
      exact List.cons_prefix_cons.mpr ⟨hb.symm, hfirst other hrest⟩

/-- **The search stops at the first marker** of a line. -/
theorem beforeDirective?_spec (directive passed line : List Char) :
    Finds directive line passed (beforeDirective? directive passed line) := by
  fun_induction beforeDirective? directive passed line with
  | case1 passed c rest h =>
    rw [Bool.and_eq_true, Bool.or_eq_true, beq_iff_eq, beq_iff_eq, beginsWith_iff] at h
    exact ⟨[], rfl, ⟨c, rest, rfl, h⟩, fun other _ => List.nil_prefix⟩
  | case2 passed c rest h ih =>
    refine ih.cons ?_
    rintro ⟨d, comment, hline, hd⟩
    cases hline
    rw [Bool.and_eq_true, Bool.or_eq_true, beq_iff_eq, beq_iff_eq, beginsWith_iff] at h
    exact h hd
  | case3 passed c rest h ih =>
    refine ih.cons ?_
    rintro ⟨d, comment, hline, -⟩
    cases hline
    exact h d comment rfl rfl
  | case4 passed => exact fun before => not_markerAfter_nil

/-- **What a line marks.** -/
theorem coveredLine?_iff {directive line : List Char} {number n : Nat} :
    coveredLine? directive number line = some n ↔ Marks directive line number n := by
  have hspec := beforeDirective?_spec directive [] line
  rw [coveredLine?]
  cases hfound : beforeDirective? directive [] line with
  | none =>
    rw [hfound] at hspec
    constructor
    · intro h
      cases h
    · rintro (⟨⟨before, hbefore, -⟩, -⟩ | ⟨⟨before, hbefore, -⟩, -⟩)
      · exact absurd hbefore (hspec before)
      · exact absurd hbefore (hspec before)
  | some found =>
    rw [hfound] at hspec
    obtain ⟨before, rfl, hbefore, hfirst⟩ := hspec
    rw [List.append_nil, Option.map_some, Option.some.injEq, List.all_reverse]
    by_cases hblank : ∀ c ∈ before, isBlank c = true
    · have hleading : LeadingMarker directive line := ⟨before, hbefore, hblank⟩
      rw [if_pos (List.all_eq_true.mpr hblank)]
      constructor
      · rintro rfl
        exact .inl ⟨hleading, rfl⟩
      · rintro (⟨-, rfl⟩ | ⟨-, hnot, -⟩)
        · rfl
        · exact absurd hleading hnot
    · -- a marker with only blanks before it would have to come first
      have hnot : ¬ LeadingMarker directive line := by
        rintro ⟨other, hother, hblanks⟩
        exact hblank fun c hc => hblanks c ((hfirst other hother).subset hc)
      have htrailing : TrailingMarker directive line := by
        refine ⟨before, hbefore, ?_⟩
        simpa using hblank
      rw [if_neg (by rwa [List.all_eq_true])]
      constructor
      · rintro rfl
        exact .inr ⟨htrailing, hnot, rfl⟩
      · rintro (⟨hleading, -⟩ | ⟨-, -, rfl⟩)
        · exact absurd hleading hnot
        · rfl

/-! ### The marked lines of a text -/

theorem mem_coveredFrom_iff {directive : List Char} {n : Nat} {ls : List (List Char)}
    {number : Nat} :
    n ∈ coveredFrom directive number ls ↔
      ∃ i line, ls[i]? = some line ∧ Marks directive line (number + i) n := by
  induction ls generalizing number with
  | nil => simp [coveredFrom]
  | cons line rest ih =>
    have hshift : ∀ i, number + 1 + i = number + (i + 1) := fun i => by omega
    rw [coveredFrom, List.mem_append, Option.mem_toList, coveredLine?_iff, ih,
      exists_getElem?_cons]
    simp only [hshift]
    rfl

theorem not_marks_nil {directive : List Char} {number n : Nat} : ¬ Marks directive [] number n := by
  rintro (⟨⟨before, hbefore, -⟩, -⟩ | ⟨⟨before, hbefore, -⟩, -⟩)
  · exact not_markerAfter_nil hbefore
  · exact not_markerAfter_nil hbefore

theorem mem_trustedLines {directive code : String} {n : Nat} :
    n ∈ trustedLines directive code ↔ ∃ i line, (lines code.toList)[i]? = some line ∧
      Marks directive.toList line (i + 1) n := by
  rw [trustedLines, List.mem_eraseDups, mem_coveredFrom_iff]
  simp only [Nat.add_comm 1]

/-- **The lines of a text that are marked**, by the places of its lines. -/
theorem mem_trustedLines_iff {directive code : String} {n : Nat} :
    n ∈ trustedLines directive code ↔ ∃ above line, LineAt code.toList above line ∧
      Marks directive.toList line (lineAfter above) n := by
  rw [mem_trustedLines]
  exact exists_line_iff_exists_lineAt
    (P := fun number line => Marks directive.toList line number n) fun number => not_marks_nil

/-! ### Rows that end in a carriage return -/

theorem directs_append_return {directive comment : List Char} (hd : '\r' ∉ directive) :
    Directs directive (comment ++ ['\r']) ↔ Directs directive comment := by
  constructor
  · rintro ⟨blanks, rest, hcomment, hblanks, hend⟩
    rcases List.eq_nil_or_concat rest with rfl | ⟨rest, c, rfl⟩
    · rw [List.append_nil] at hcomment
      -- the carriage return is no part of the directive, so nothing but blanks precede it
      rcases List.eq_nil_or_concat directive with rfl | ⟨directive, c, rfl⟩
      · rw [List.append_nil] at hcomment
        have hall : ∀ c ∈ comment, isBlank c = true := fun c hc =>
          hblanks c (hcomment ▸ List.mem_append_left _ hc)
        exact ⟨comment, [], by simp, hall, rfl⟩
      · rw [List.concat_eq_append, ← List.append_assoc] at hcomment
        obtain ⟨-, hc⟩ := List.append_inj' hcomment rfl
        refine absurd ?_ hd
        rw [List.concat_eq_append, ← hc]
        exact List.mem_append_right _ (List.mem_singleton_self _)
    · rw [List.concat_eq_append, ← List.append_assoc] at hcomment
      obtain ⟨hcomment, -⟩ := List.append_inj' hcomment rfl
      refine ⟨blanks, rest, hcomment, hblanks, ?_⟩
      cases rest with
      | nil => rfl
      | cons => exact hend
  · rintro ⟨blanks, rest, rfl, hblanks, hend⟩
    refine ⟨blanks, rest ++ ['\r'], by simp, hblanks, ?_⟩
    cases rest with
    | nil => rfl
    | cons => exact hend

theorem markerAfter_append_return {directive before line : List Char} (hd : '\r' ∉ directive) :
    MarkerAfter directive before (line ++ ['\r']) ↔ MarkerAfter directive before line := by
  constructor
  · rintro ⟨c, comment, hline, hc, hcomment⟩
    rcases List.eq_nil_or_concat comment with rfl | ⟨comment, e, rfl⟩
    · have hlast : line ++ ['\r'] = (before ++ ['/']) ++ [c] := by rw [hline]; simp
      obtain ⟨-, hreturn⟩ := List.append_inj' hlast rfl
      obtain rfl : '\r' = c := (List.cons.inj hreturn).1
      rcases hc with hc | hc <;> cases hc
    · have hlast : line ++ ['\r'] = (before ++ '/' :: c :: comment) ++ [e] := by rw [hline]; simp
      obtain ⟨rfl, hreturn⟩ := List.append_inj' hlast rfl
      obtain rfl : '\r' = e := (List.cons.inj hreturn).1
      rw [List.concat_eq_append, directs_append_return hd] at hcomment
      exact ⟨c, comment, rfl, hc, hcomment⟩
  · rintro ⟨c, comment, rfl, hc, hcomment⟩
    exact ⟨c, comment ++ ['\r'], by simp, hc, (directs_append_return hd).mpr hcomment⟩

theorem marks_append_return {directive line : List Char} {number n : Nat} (hd : '\r' ∉ directive) :
    Marks directive (line ++ ['\r']) number n ↔ Marks directive line number n := by
  simp only [Marks, LeadingMarker, TrailingMarker, markerAfter_append_return hd]

/-! ### Expressions that are covered -/

theorem covers_replaceUnit {trusted : TrustedLines} {unit : String} {marked : List Nat} {e : Expr}
    (he : e.position.unit = unit) :
    (trusted.replaceUnit unit marked).covers e = true ↔ e.position.line ∈ marked := by
  have hget : (trusted.replaceUnit unit marked).lines.getD unit [] = marked.eraseDups := by
    unfold TrustedLines.replaceUnit
    cases marked with
    | nil => exact (Table.getD_erase ..).trans (if_pos rfl)
    | cons line rest => exact (Table.getD_insert ..).trans (if_pos rfl)
  rw [TrustedLines.covers, he, hget, List.contains_iff_mem, List.mem_eraseDups]

theorem trustedLines_unitOf {directive path text : String} {tree : Tree} {hasErrors : Bool}
    {u : SourceUnit} (h : unitOf directive path text tree hasErrors = .ok u) :
    u.path = path ∧ u.trustedLines = trustedLines directive text := by
  unfold unitOf unitOfTree at h
  split at h
  · cases h
  · rename_i u' hread
    cases h
    split at hread
    · cases hread
    · cases hread
      exact ⟨rfl, rfl⟩

/-- **Markers count lines, positions count rows.**  For every text and directive, the marked lines
are those that the markers of its lines mark, where lines are counted at all line ends.  In a unit
read from the text they cover the expressions that start at these numbers, while a node on a line
starts at the number of its row: the two differ by the stray line ends above the line.  In a text
without stray line ends the marked lines are those that the markers of its rows mark. -/
theorem markers_count_lines (directive code : String) :
    (∀ n, n ∈ trustedLines directive code ↔ ∃ above line, LineAt code.toList above line ∧
      Marks directive.toList line (rowAfter above + strays above) n) ∧
    (∀ path tree hasErrors u, unitOf directive path code tree hasErrors = .ok u →
      ∀ (trusted : TrustedLines) (t : Tree) (e : Expr),
        e.position = (Source.ofText path code).position t →
        ((trusted.replaceUnit u.path u.trustedLines).covers e = true ↔
          ∃ above line, LineAt code.toList above line ∧
            Marks directive.toList line (rowAfter above + strays above) e.position.line) ∧
        ∀ above line, LineAt code.toList above line → (encoded above).length ≤ t.start →
          t.start ≤ (encoded (above ++ line)).length → e.position.line = rowAfter above) ∧
    (strays code.toList = 0 → '\r' ∉ directive.toList →
      ∀ n, n ∈ trustedLines directive code ↔
        ∃ i row, (code.toList.splitOn '\n')[i]? = some row ∧
          Marks directive.toList row (i + 1) n) := by
  refine ⟨fun n => mem_trustedLines_iff, ?_, ?_⟩
  · intro path tree hasErrors u hu trusted t e he
    obtain ⟨hpath, hmarked⟩ := trustedLines_unitOf hu
    have hunit : e.position.unit = u.path := by rw [he, hpath]; rfl
    refine ⟨?_, fun above line hline hfrom hto => ?_⟩
    · rw [covers_replaceUnit hunit, hmarked, mem_trustedLines_iff]
      rfl
    · rw [he]
      exact Source.line_position hline hfrom hto
  · intro hstrays hreturn n
    rw [mem_trustedLines]
    exact (exists_row_iff_exists_line (fun i => not_marks_nil)
      (fun i line => marks_append_return hreturn) hstrays).symm

/-- A call whose line is marked, and one on the next line. -/
def callThenCall : String := "a();\nrun(x); // taintscan:trusted\nrun(y);"

/-- The call on the second line of `callThenCall` is covered. -/
theorem markers_of_callThenCall :
    2 ∈ trustedLines defaultDirective callThenCall ∧
    ∃ u, unitOf defaultDirective "A.java" callThenCall { type := "program", start := 0, stop := 0 }
        false = .ok u ∧
      ∀ e : Expr, e.position = (Source.ofText "A.java" callThenCall).position
          { type := "method_invocation", start := 5, stop := 11 } →
        (TrustedLines.empty.replaceUnit u.path u.trustedLines).covers e = true := by
  have hmarked : 2 ∈ trustedLines defaultDirective callThenCall :=
    ((markers_count_lines defaultDirective callThenCall).2.2 (by decide) (by decide) 2).mpr
      ⟨1, "run(x); // taintscan:trusted".toList, by decide, coveredLine?_iff.mp (by decide)⟩
  obtain ⟨u, hu⟩ : ∃ u, unitOf defaultDirective "A.java" callThenCall
      { type := "program", start := 0, stop := 0 } false = .ok u := ⟨_, rfl⟩
  refine ⟨hmarked, u, hu, fun e he => ?_⟩
  have hline : e.position.line = 2 := by
    rw [he, Source.line_position_eq]
    decide
  rw [((markers_count_lines defaultDirective callThenCall).2.1 _ _ _ u hu _ _ e he).1, hline]
  exact mem_trustedLines_iff.mp hmarked

/-- The same calls, with a form feed at the end of the first line. -/
def callAfterFormFeed : String := "a();\x0c\nrun(x); // taintscan:trusted\nrun(y);"

/-- The marker in the second row of `callAfterFormFeed` covers the call in the third row instead of
the one in front of it. -/
theorem form_feed_moves_marker :
    (∃ row, (callAfterFormFeed.toList.splitOn '\n')[1]? = some row ∧
      Marks defaultDirective.toList row 2 2) ∧
    trustedLines defaultDirective callAfterFormFeed = [3] ∧
    (∀ e : Expr, e.position = (Source.ofText "A.java" callAfterFormFeed).position
        { type := "method_invocation", start := 6, stop := 12 } →
      e.position.line = 2 ∧ (TrustedLines.empty.replaceUnit "A.java"
        (trustedLines defaultDirective callAfterFormFeed)).covers e = false) ∧
    ∀ e : Expr, e.position = (Source.ofText "A.java" callAfterFormFeed).position
        { type := "method_invocation", start := 35, stop := 41 } →
      e.position.line = 3 ∧ (TrustedLines.empty.replaceUnit "A.java"
        (trustedLines defaultDirective callAfterFormFeed)).covers e = true := by
  have hmarked : trustedLines defaultDirective callAfterFormFeed = [3] := by decide
  refine ⟨⟨"run(x); // taintscan:trusted".toList, by decide, coveredLine?_iff.mp (by decide)⟩,
    hmarked, fun e he => ?_, fun e he => ?_⟩
  · have hline : e.position.line = 2 := by
      rw [he, Source.line_position_eq]
      decide
    refine ⟨hline, Bool.eq_false_iff.mpr fun hcovers => ?_⟩
    rw [covers_replaceUnit (by rw [he]; rfl), hline, hmarked] at hcovers
    exact absurd hcovers (by decide)
  · have hline : e.position.line = 3 := by
      rw [he, Source.line_position_eq]
      decide
    refine ⟨hline, ?_⟩
    rw [covers_replaceUnit (by rw [he]; rfl), hline, hmarked]
    decide

end TaintFlow.Java
