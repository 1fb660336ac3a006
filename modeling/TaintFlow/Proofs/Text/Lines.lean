import TaintFlow.Text.Lines
import Mathlib.Data.List.Basic

/-!
# Where the lines of a text stand

`lines` ends a line at eleven characters, and a row of a text ends at a line feed only.  Here a line
is described by its place in the text (`LineAt`), with nothing said about how the text is cut, and
its number is related to the number of its row: the two differ by the line ends before it that are
neither a line feed nor followed by one as a pair (`strays`).

* `lines_induction` : a text is read line by line;
* `lineAt_append_end` : the lines of a text are its first one and those after the first line end;
* `exists_line_iff_exists_lineAt` : `lines` gives the lines that stand in the text;
* `exists_row_iff_exists_line` : without stray line ends, rows and lines are the same up to the
  carriage return of a pair.
-/

namespace TaintFlow.Text

/-- A text in which no line ends. -/
def NoEnd (cs : List Char) : Prop :=
  ∀ c ∈ cs, isLineEnd c = false

/-- The line end `e` stands before `rest`.  A carriage return is one only if no line feed
follows it, with which it makes a pair. -/
inductive EndsLine : List Char → List Char → Prop
  | pair (rest : List Char) : EndsLine ['\r', '\n'] rest
  | one {c : Char} {rest : List Char} (hc : isLineEnd c = true)
      (hpair : c = '\r' → rest.head? ≠ some '\n') : EndsLine [c] rest

/-- `line` stands in the text `cs` after `above`: it begins with the text or behind a line end, and
reaches to the next line end or to the end of the text. -/
def LineAt (cs above line : List Char) : Prop :=
  NoEnd line ∧ ∃ below, cs = above ++ (line ++ below) ∧
    (∀ c ∈ above.getLast?, isLineEnd c = true) ∧ (∀ c ∈ below.head?, isLineEnd c = true) ∧
    (above.getLast? = some '\r' → (line ++ below).head? ≠ some '\n')

/-- The number of line ends that are neither a line feed nor a carriage return before one. -/
def strays : List Char → Nat
  | [] => 0
  | '\r' :: '\n' :: rest => strays rest
  | c :: rest => (if isLineEnd c && c != '\n' then 1 else 0) + strays rest

/-- The number of the row that begins after `above`. -/
def rowAfter (above : List Char) : Nat :=
  above.count '\n' + 1

/-- The number of the line that begins after `above`. -/
def lineAfter (above : List Char) : Nat :=
  rowAfter above + strays above

/-! ### Texts without line ends -/

theorem noEnd_nil : NoEnd [] :=
  fun _ h => absurd h List.not_mem_nil

theorem noEnd_cons {c : Char} {cs : List Char} :
    NoEnd (c :: cs) ↔ isLineEnd c = false ∧ NoEnd cs :=
  List.forall_mem_cons

theorem NoEnd.not_mem {cs : List Char} (h : NoEnd cs) {c : Char} (hc : isLineEnd c = true) :
    c ∉ cs := by
  intro hmem
  rw [h c hmem] at hc
  exact Bool.false_ne_true hc

/-- What a line end can follow is determined by the text. -/
theorem NoEnd.append_inj {line line' below below' : List Char} (h : NoEnd line) (h' : NoEnd line')
    (hb : ∀ c ∈ below.head?, isLineEnd c = true) (hb' : ∀ c ∈ below'.head?, isLineEnd c = true)
    (heq : line ++ below = line' ++ below') : line = line' := by
  have first : ∀ {l b : List Char}, NoEnd l → (∀ c ∈ b.head?, isLineEnd c = true) →
      (l ++ b).takeWhile (!isLineEnd ·) = l := by
    intro l b hl hb
    rw [List.takeWhile_append_of_pos (fun c hc => by rw [hl c hc]; rfl)]
    cases b with
    | nil => simp
    | cons c b => simp [hb c rfl]
  rw [← first h hb, heq, first h' hb']

/-- A text without line ends is its only line. -/
theorem lineAt_of_noEnd {cs above line : List Char} (h : NoEnd cs) :
    LineAt cs above line ↔ above = [] ∧ line = cs := by
  constructor
  · rintro ⟨-, below, rfl, habove, hbelow, -⟩
    have hnil : above = [] := by
      rcases List.eq_nil_or_concat above with hnil | ⟨init, c, rfl⟩
      · exact hnil
      · exact absurd (by simp) (h.not_mem (habove c (by simp)))
    have hend : below = [] := by
      cases below with
      | nil => rfl
      | cons c below => exact absurd (by simp) (h.not_mem (hbelow c rfl))
    exact ⟨hnil, by rw [hnil, hend]; simp⟩
  · rintro ⟨rfl, rfl⟩
    exact ⟨h, [], by simp, by simp, by simp, by simp⟩

/-! ### The first line of a longer text -/

namespace EndsLine

variable {e rest : List Char}

theorem head?_append (h : EndsLine e rest) : ∀ c ∈ (e ++ rest).head?, isLineEnd c = true := by
  intro c hc
  cases h with
  | pair => cases hc; rfl
  | one he => cases hc; exact he

theorem getLast? (h : EndsLine e rest) : ∀ c ∈ e.getLast?, isLineEnd c = true := by
  intro c hc
  cases h with
  | pair => cases hc; rfl
  | one he => cases hc; exact he

theorem ne_nil (h : EndsLine e rest) : e ≠ [] := by
  cases h <;> exact List.cons_ne_nil _ _

/-- No line begins inside a pair. -/
theorem not_inside (h : EndsLine e rest) (hlast : e.getLast? = some '\r') :
    rest.head? ≠ some '\n' := by
  cases h with
  | pair => cases hlast
  | one _ hpair => exact hpair (by simpa using hlast)

/-- Only the two characters of a pair can be parted. -/
theorem eq_nil_of_parted {part gap : List Char} (h : EndsLine e rest) (heq : e = part ++ gap)
    (hpart : part ≠ []) (hpair : part.getLast? = some '\r' → gap.head? ≠ some '\n') : gap = [] := by
  obtain ⟨c, part, rfl⟩ := List.exists_cons_of_ne_nil hpart
  cases h with
  | one =>
    rw [List.cons_append, List.cons.injEq] at heq
    exact (List.append_eq_nil_iff.mp heq.2.symm).2
  | pair =>
    rw [List.cons_append, List.cons.injEq] at heq
    obtain ⟨rfl, heq⟩ := heq
    cases part with
    | nil =>
      rw [List.nil_append] at heq
      subst heq
      exact absurd rfl (hpair rfl)
    | cons d part =>
      rw [List.cons_append, List.cons.injEq] at heq
      exact (List.append_eq_nil_iff.mp heq.2.symm).2

/-- The same line end stands before any part of the text that follows. -/
theorem of_append {above : List Char} (h : EndsLine e (above ++ rest)) : EndsLine e above := by
  cases h with
  | pair => exact .pair above
  | one hc hpair =>
    refine .one hc fun hcr hhead => hpair hcr ?_
    rw [List.head?_append, hhead, Option.some_or]

end EndsLine

/-- A place at which a line can begin, other than the first, lies behind the first line end. -/
theorem exists_append_of_lineAt {first e rest above line below : List Char} (hfirst : NoEnd first)
    (he : EndsLine e rest) (heq : first ++ e ++ rest = above ++ (line ++ below))
    (hne : above ≠ []) (habove : ∀ c ∈ above.getLast?, isLineEnd c = true)
    (hpair : above.getLast? = some '\r' → (line ++ below).head? ≠ some '\n') :
    ∃ above', above = first ++ e ++ above' ∧ rest = above' ++ (line ++ below) := by
  rcases List.append_eq_append_iff.mp heq with h | ⟨gap, hgap, hrest⟩
  · exact h
  have hz : isLineEnd (above.getLast hne) = true := habove _ (List.getLast?_eq_some_getLast hne)
  have hlast : above.getLast hne ∉ first := hfirst.not_mem hz
  -- the last character before the line is a line end, so it is one of `e`
  rcases List.append_eq_append_iff.mp hgap with ⟨part, hpart, hend⟩ | ⟨part, hpart, -⟩
  · have hne' : part ≠ [] := by
      rintro rfl
      rw [List.append_nil] at hpart
      exact hlast (hpart ▸ List.getLast_mem hne)
    have hgapnil : gap = [] := by
      refine he.eq_nil_of_parted hend hne' fun hreturn hfeed => ?_
      refine hpair ?_ ?_
      · rw [hpart, List.getLast?_append_of_ne_nil _ hne', hreturn]
      · rw [hrest, List.head?_append, hfeed, Option.some_or]
    subst hgapnil
    exact ⟨[], by rw [hgap]; simp, by rw [List.nil_append, hrest, List.nil_append]⟩
  · exact absurd (hpart ▸ List.mem_append_left _ (List.getLast_mem hne)) hlast

/-- The lines of a text are its first one and those after the first line end. -/
theorem lineAt_append_end {first e rest above line : List Char} (hfirst : NoEnd first)
    (he : EndsLine e rest) :
    LineAt (first ++ e ++ rest) above line ↔
      (above = [] ∧ line = first) ∨
        ∃ above', above = first ++ e ++ above' ∧ LineAt rest above' line := by
  constructor
  · rintro ⟨hline, below, heq, habove, hbelow, hpair⟩
    by_cases hnil : above = []
    · subst hnil
      rw [List.nil_append, List.append_assoc] at heq
      exact .inl ⟨rfl, hline.append_inj hfirst hbelow he.head?_append heq.symm⟩
    · obtain ⟨above', rfl, rfl⟩ := exists_append_of_lineAt hfirst he heq hnil habove hpair
      refine .inr ⟨above', rfl, hline, below, rfl, ?_, hbelow, ?_⟩
      · intro c hc
        exact habove c (by rw [List.getLast?_append, hc, Option.some_or]; rfl)
      · intro hlast
        exact hpair (by rw [List.getLast?_append, hlast, Option.some_or])
  · rintro (⟨rfl, rfl⟩ | ⟨above', rfl, hline, below, rfl, habove, hbelow, hpair⟩)
    · exact ⟨hfirst, e ++ rest, by simp, by simp, he.head?_append, by simp⟩
    · refine ⟨hline, below, by simp, ?_, hbelow, ?_⟩
      · intro c hc
        rcases List.eq_nil_or_concat above' with rfl | ⟨init, z, rfl⟩
        · rw [List.append_nil, List.getLast?_append_of_ne_nil _ he.ne_nil] at hc
          exact he.getLast? c hc
        · rw [List.getLast?_append_of_ne_nil _ (by simp)] at hc
          exact habove c hc
      · intro hlast
        rcases List.eq_nil_or_concat above' with rfl | ⟨init, z, rfl⟩
        · rw [List.append_nil, List.getLast?_append_of_ne_nil _ he.ne_nil] at hlast
          exact he.not_inside hlast
        · rw [List.getLast?_append_of_ne_nil _ (by simp)] at hlast
          exact hpair hlast

/-- A text is one line, or a line, its end and the text after it. -/
theorem lines_induction {P : List Char → Prop} (last : ∀ line, NoEnd line → P line)
    (next : ∀ first e rest, NoEnd first → EndsLine e rest → P rest → P (first ++ e ++ rest))
    (cs : List Char) : P cs := by
  -- by the length of the text, with the part of the first line that was passed in front
  suffices h : ∀ n first cs, cs.length ≤ n → NoEnd first → P (first ++ cs) from
    h cs.length [] cs (Nat.le_refl _) noEnd_nil
  intro n
  induction n with
  | zero =>
    intro first cs hlen hfirst
    rw [List.length_eq_zero_iff.mp (Nat.le_zero.mp hlen), List.append_nil]
    exact last first hfirst
  | succ n ih =>
    intro first cs hlen hfirst
    match cs with
    | [] =>
      rw [List.append_nil]
      exact last first hfirst
    | c :: rest =>
      have hrest : rest.length ≤ n := Nat.le_of_succ_le_succ hlen
      cases hc : isLineEnd c with
      | false =>
        have hc' : NoEnd (first ++ [c]) :=
          List.forall_mem_append.mpr ⟨hfirst, noEnd_cons.mpr ⟨hc, noEnd_nil⟩⟩
        simpa using ih (first ++ [c]) rest hrest hc'
      | true =>
        by_cases hpair : c = '\r' ∧ rest.head? = some '\n'
        · obtain ⟨rfl, hhead⟩ := hpair
          obtain ⟨rest', rfl⟩ := List.head?_eq_some_iff.mp hhead
          have hrest' : rest'.length ≤ n := Nat.le_of_succ_le hrest
          simpa using next first _ rest' hfirst (.pair rest') (ih [] rest' hrest' noEnd_nil)
        · have he : EndsLine [c] rest := .one hc fun hcr hhead => hpair ⟨hcr, hhead⟩
          simpa using next first _ rest hfirst he (ih [] rest hrest noEnd_nil)

/-! ### The lines that are given -/

theorem linesFrom_cons {line rest : List Char} {c : Char}
    (hpair : c = '\r' → rest.head? ≠ some '\n') :
    linesFrom line (c :: rest) =
      if isLineEnd c then line.reverse :: linesFrom [] rest else linesFrom (c :: line) rest := by
  rw [linesFrom]
  rintro rest' rfl rfl
  exact hpair rfl rfl

theorem linesFrom_append {first : List Char} (h : NoEnd first) (line rest : List Char) :
    linesFrom line (first ++ rest) = linesFrom (first.reverse ++ line) rest := by
  induction first generalizing line with
  | nil => rfl
  | cons c first ih =>
    obtain ⟨hc, hfirst⟩ := noEnd_cons.mp h
    have hcr : c ≠ '\r' := by
      rintro rfl
      exact absurd hc (by decide)
    rw [List.cons_append, linesFrom_cons fun h => absurd h hcr, hc, if_neg Bool.false_ne_true,
      ih hfirst, List.reverse_cons, List.append_assoc, List.singleton_append]

theorem lines_of_noEnd {line : List Char} (h : NoEnd line) (hne : line ≠ []) :
    lines line = [line] := by
  have hrun := linesFrom_append h [] []
  rw [List.append_nil, List.append_nil] at hrun
  rw [lines, hrun, linesFrom, if_neg (by simpa using hne), List.reverse_reverse]

theorem lines_append_end {first e rest : List Char} (hfirst : NoEnd first)
    (he : EndsLine e rest) : lines (first ++ e ++ rest) = first :: lines rest := by
  rw [lines, List.append_assoc, linesFrom_append hfirst, List.append_nil]
  cases he with
  | pair => rw [List.cons_append, List.cons_append, List.nil_append, linesFrom,
      List.reverse_reverse, lines]
  | one hc hpair => rw [List.singleton_append, linesFrom_cons hpair, hc, if_pos rfl,
      List.reverse_reverse, lines]

/-! ### Numbers of lines -/

theorem strays_cons {rest : List Char} {c : Char} (hpair : c = '\r' → rest.head? ≠ some '\n') :
    strays (c :: rest) = (if isLineEnd c && c != '\n' then 1 else 0) + strays rest := by
  rw [strays]
  rintro rest' rfl rfl
  exact hpair rfl rfl

theorem strays_append_of_noEnd {first : List Char} (h : NoEnd first) (rest : List Char) :
    strays (first ++ rest) = strays rest := by
  induction first with
  | nil => rfl
  | cons c first ih =>
    obtain ⟨hc, hfirst⟩ := noEnd_cons.mp h
    have hcr : c ≠ '\r' := by
      rintro rfl
      exact absurd hc (by decide)
    rw [List.cons_append, strays_cons fun h => absurd h hcr, hc, ih hfirst]
    simp

theorem strays_append_end {first e rest : List Char} (hfirst : NoEnd first)
    (he : EndsLine e rest) :
    strays (first ++ e ++ rest) = (if '\n' ∈ e then 0 else 1) + strays rest := by
  rw [List.append_assoc, strays_append_of_noEnd hfirst]
  cases he with
  | pair => simp [strays]
  | @one c _ hc hpair =>
    rw [List.singleton_append, strays_cons hpair, hc]
    by_cases hfeed : c = '\n'
    · simp [hfeed]
    · simp [hfeed, Ne.symm hfeed]

theorem lineAfter_append_end {first e above : List Char} (hfirst : NoEnd first)
    (he : EndsLine e above) : lineAfter (first ++ e ++ above) = lineAfter above + 1 := by
  have hcount : first.count '\n' = 0 := List.count_eq_zero.mpr (hfirst.not_mem (by decide))
  have hone : e.count '\n' + (if '\n' ∈ e then 0 else 1) = 1 := by
    cases he with
    | pair => rfl
    | @one c =>
      by_cases hc : c = '\n'
      · subst hc; rfl
      · simp [hc, Ne.symm hc]
  rw [lineAfter, lineAfter, rowAfter, rowAfter, strays_append_end hfirst he, List.count_append,
    List.count_append, hcount]
  omega

theorem exists_getElem?_cons {α : Type} {P : Nat → α → Prop} {a : α} {l : List α} :
    (∃ i x, (a :: l)[i]? = some x ∧ P i x) ↔
      P 0 a ∨ ∃ i x, l[i]? = some x ∧ P (i + 1) x := by
  constructor
  · rintro ⟨i, x, hx, hP⟩
    cases i with
    | zero => exact .inl (Option.some.inj hx ▸ hP)
    | succ i => exact .inr ⟨i, x, hx, hP⟩
  · rintro (hP | ⟨i, x, hx, hP⟩)
    · exact ⟨0, a, rfl, hP⟩
    · exact ⟨i + 1, x, hx, hP⟩

/-- **The lines that are given** are those that stand in the text, under the same numbers.  The text
after the last line end is not given if it is empty. -/
theorem exists_line_iff_exists_lineAt {P : Nat → List Char → Prop} (hnil : ∀ n, ¬ P n [])
    {cs : List Char} :
    (∃ i line, (lines cs)[i]? = some line ∧ P (i + 1) line) ↔
      ∃ above line, LineAt cs above line ∧ P (lineAfter above) line := by
  induction cs using lines_induction generalizing P with
  | last cs h =>
    simp only [lineAt_of_noEnd h]
    by_cases hcs : cs = []
    · subst hcs
      constructor
      · rintro ⟨i, line, hline, -⟩
        cases hline
      · rintro ⟨_, _, ⟨rfl, rfl⟩, hP⟩
        exact absurd hP (hnil _)
    · rw [lines_of_noEnd h hcs, exists_getElem?_cons (P := fun i => P (i + 1))]
      constructor
      · rintro (hP | ⟨i, line, hline, -⟩)
        · exact ⟨[], cs, ⟨rfl, rfl⟩, hP⟩
        · cases hline
      · rintro ⟨_, _, ⟨rfl, rfl⟩, hP⟩
        exact .inl hP
  | next first e rest hfirst he ih =>
    have ih := ih (P := fun n => P (n + 1)) (fun n => hnil (n + 1))
    rw [lines_append_end hfirst he, exists_getElem?_cons (P := fun i => P (i + 1)), ih]
    simp only [lineAt_append_end hfirst he]
    -- a line of the rest has one line end more above it
    have hnext : ∀ {above line}, LineAt rest above line →
        lineAfter (first ++ e ++ above) = lineAfter above + 1 := by
      rintro above line ⟨-, below, rfl, -⟩
      exact lineAfter_append_end hfirst he.of_append
    constructor
    · rintro (hP | ⟨above, line, hline, hP⟩)
      · exact ⟨[], first, .inl ⟨rfl, rfl⟩, hP⟩
      · exact ⟨_, line, .inr ⟨above, rfl, hline⟩, hnext hline ▸ hP⟩
    · rintro ⟨_, line, ⟨rfl, rfl⟩ | ⟨above, rfl, hline⟩, hP⟩
      · exact .inl hP
      · exact .inr ⟨above, line, hline, hnext hline ▸ hP⟩

/-! ### Rows -/

/-- Without stray line ends a property that no empty row has, and that a carriage return at the end
does not change, holds of the same rows as lines. -/
theorem exists_row_iff_exists_line {P : Nat → List Char → Prop} (hnil : ∀ i, ¬ P i [])
    (hreturn : ∀ i line, P i (line ++ ['\r']) ↔ P i line) {cs : List Char} (hs : strays cs = 0) :
    (∃ i row, (cs.splitOn '\n')[i]? = some row ∧ P i row) ↔
      ∃ i line, (lines cs)[i]? = some line ∧ P i line := by
  have hfeed : isLineEnd '\n' = true := by decide
  induction cs using lines_induction generalizing P with
  | last cs h =>
    rw [List.splitOn_eq_singleton (h.not_mem hfeed)]
    by_cases hcs : cs = []
    · subst hcs
      rw [exists_getElem?_cons]
      simp [lines, linesFrom, hnil 0]
    · rw [lines_of_noEnd h hcs]
  | next first e rest hfirst he ih =>
    rw [strays_append_end hfirst he] at hs
    have hsplit : ∃ row, (first ++ e ++ rest).splitOn '\n' = row :: rest.splitOn '\n' ∧
        (P 0 row ↔ P 0 first) := by
      have hnot := hfirst.not_mem hfeed
      cases he with
      | pair =>
        refine ⟨first ++ ['\r'], ?_, hreturn 0 first⟩
        have heq : first ++ ['\r', '\n'] ++ rest = (first ++ ['\r']) ++ '\n' :: rest := by simp
        rw [heq, List.splitOn_append_cons_self_of_not_mem (by simp [hnot])]
      | @one c =>
        by_cases hc : '\n' = c
        · subst hc
          refine ⟨first, ?_, Iff.rfl⟩
          rw [List.append_assoc, List.singleton_append,
            List.splitOn_append_cons_self_of_not_mem hnot]
        · rw [if_neg (by simpa using hc)] at hs
          omega
    obtain ⟨row, hrow, hP⟩ := hsplit
    have hrest : strays rest = 0 := by omega
    have ih := ih (fun i => hnil (i + 1)) (fun i => hreturn (i + 1)) hrest
    rw [hrow, lines_append_end hfirst he]
    rw [exists_getElem?_cons, exists_getElem?_cons]
    exact or_congr hP ih

end TaintFlow.Text
