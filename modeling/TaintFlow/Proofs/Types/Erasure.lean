import Mathlib.Data.List.Infix
import Mathlib.Logic.Function.Iterate
import Mathlib.Order.Bounds.Basic
import TaintFlow.Types.Erasure

/-!
# Type arguments and the matching of brackets

The arguments of a type are removed in rounds, innermost brackets first, until a round changes nothing.
This comes to one pass of ordinary bracket matching: a closing bracket belongs to the last one that is
still open, and brackets that belong to no other are kept.

* `Matcher.read` is one step of the pass, `unmatched` what it keeps,
* `foldl_dropInnermost` says that a round does not change what the pass keeps,
* `arguments_go_with_their_brackets` says when the rounds end, what they leave and what this means for
  the plain name of a type.
-/

namespace TaintFlow.Types

open TaintFlow.Text

/-! ### Bracket matching -/

/-- What was read of a text: the part before the brackets that are open, and the text after each of
them, the last one first. -/
structure Matcher where
  outside : List Char := []
  opened : List (List Char) := []

namespace Matcher

/-- Reads a character.  A closing bracket takes the last open one along, and the text between. -/
def read (m : Matcher) (c : Char) : Matcher :=
  if c = '<' then { m with opened := [] :: m.opened }
  else
    match m.opened with
    | [] => { m with outside := m.outside ++ [c] }
    | inner :: around => { m with opened := if c = '>' then around else (inner ++ [c]) :: around }

/-- What is kept at the end, with the brackets that are still open. -/
def kept (m : Matcher) : List Char :=
  m.outside ++ m.opened.reverse.flatMap ('<' :: ·)

theorem kept_read (m : Matcher) {c : Char} (hc : c ≠ '>') : (m.read c).kept = m.kept ++ [c] := by
  obtain ⟨outside, opened⟩ := m
  unfold read
  split
  · simp [kept, *]
  · cases opened <;> simp [kept]

theorem foldl_read_plain {cs : List Char} (h : ∀ c ∈ cs, c ≠ '<' ∧ c ≠ '>') (outside inner : List Char)
    (around : List (List Char)) :
    cs.foldl read ⟨outside, inner :: around⟩ = ⟨outside, (inner ++ cs) :: around⟩ := by
  induction cs generalizing inner with
  | nil => simp
  | cons c cs ih =>
    obtain ⟨⟨hopen, hclose⟩, hcs⟩ := List.forall_mem_cons.1 h
    have hread : read ⟨outside, inner :: around⟩ c = ⟨outside, (inner ++ [c]) :: around⟩ := by
      simp [read, hopen, hclose]
    rw [List.foldl_cons, hread, ih hcs, List.append_assoc]
    rfl

/-- A pair with a text between that has no brackets leaves nothing behind. -/
theorem foldl_read_pair {inner : List Char} (h : ∀ c ∈ inner, c ≠ '<' ∧ c ≠ '>') (rest : List Char)
    (m : Matcher) : ('<' :: (inner ++ '>' :: rest)).foldl read m = rest.foldl read m := by
  have hopen : m.read '<' = ⟨m.outside, [] :: m.opened⟩ := rfl
  rw [List.foldl_cons, List.foldl_append, hopen, foldl_read_plain h, List.foldl_cons]
  rfl

end Matcher

/-- The text without the brackets that match, and without all that is between them. -/
def unmatched (cs : List Char) : List Char :=
  (cs.foldl Matcher.read {}).kept

/-- No opening bracket stands to the left of a closing one. -/
def Apart (cs : List Char) : Prop :=
  cs.Pairwise fun a b => ¬(a = '<' ∧ b = '>')

/-- There are as many closing brackets as opening ones, and nowhere more of them so far. -/
def Balanced (cs : List Char) : Prop :=
  cs.count '<' = cs.count '>' ∧ ∀ front ∈ cs.inits, front.count '>' ≤ front.count '<'

instance (cs : List Char) : Decidable (Balanced cs) :=
  inferInstanceAs (Decidable (_ ∧ _))

theorem Matcher.kept_foldl {cs : List Char} (h : '>' ∉ cs) (m : Matcher) :
    (cs.foldl read m).kept = m.kept ++ cs := by
  induction cs generalizing m with
  | nil => simp
  | cons c cs ih =>
    rw [List.mem_cons, not_or] at h
    rw [List.foldl_cons, ih h.2, kept_read _ (Ne.symm h.1), List.append_assoc]
    rfl

theorem unmatched_of_apart {cs : List Char} (h : Apart cs) : unmatched cs = cs := by
  suffices hkept : ∀ outside, (cs.foldl Matcher.read ⟨outside, []⟩).kept = outside ++ cs from hkept []
  induction cs with
  | nil => simp [Matcher.kept]
  | cons c cs ih =>
    obtain ⟨hc, hcs⟩ := List.pairwise_cons.1 h
    intro outside
    by_cases hopen : c = '<'
    · have hclose : '>' ∉ c :: cs := by
        simp only [List.mem_cons, not_or, hopen]
        exact ⟨by decide, fun hmem => hc _ hmem ⟨hopen, rfl⟩⟩
      rw [Matcher.kept_foldl hclose]
      simp [Matcher.kept]
    · have hread : Matcher.read ⟨outside, []⟩ c = ⟨outside ++ [c], []⟩ := by simp [Matcher.read, hopen]
      rw [List.foldl_cons, hread, ih hcs, List.append_assoc]
      rfl

/-- The brackets of a text that is balanced but for some that are open before it all match. -/
theorem Matcher.foldl_balanced {cs : List Char} {m : Matcher}
    (hfronts : ∀ front ∈ cs.inits, front.count '>' ≤ m.opened.length + front.count '<')
    (hcount : m.opened.length + cs.count '<' = cs.count '>')
    (hplain : ∀ text ∈ m.outside :: m.opened, '<' ∉ text ∧ '>' ∉ text) :
    '<' ∉ (cs.foldl read m).kept ∧ '>' ∉ (cs.foldl read m).kept := by
  induction cs generalizing m with
  | nil =>
    have hopened : m.opened = [] := by simpa using hcount
    simpa [kept, hopened] using hplain m.outside List.mem_cons_self
  | cons c cs ih =>
    obtain ⟨outside, opened⟩ := m
    rw [List.inits_cons] at hfronts
    simp only [List.forall_mem_cons, List.forall_mem_map] at hfronts hplain
    rw [List.foldl_cons]
    by_cases hopen : c = '<'
    · subst hopen
      refine ih (fun front hfront => ?_) ?_ ?_
      · have := hfronts.2 front hfront
        simp [read] at this ⊢
        omega
      · simp [read] at hcount ⊢
        omega
      · simpa [read] using hplain
    by_cases hclose : c = '>'
    · subst hclose
      obtain ⟨inner, around, rfl⟩ : ∃ inner around, opened = inner :: around := by
        have := hfronts.2 [] (by simp)
        cases opened <;> simp at this ⊢
      refine ih (fun front hfront => ?_) ?_ ?_
      · have := hfronts.2 front hfront
        simp [read] at this ⊢
        omega
      · simp [read] at hcount ⊢
        omega
      · simp [read] at hplain ⊢
        grind
    · cases opened with
      | nil =>
        refine ih (fun front hfront => ?_) ?_ ?_
        · simpa [read, hopen, hclose] using hfronts.2 front hfront
        · simpa [read, hopen, hclose] using hcount
        · simp [read, hopen] at hplain ⊢
          grind
      | cons inner around =>
        refine ih (fun front hfront => ?_) ?_ ?_
        · simpa [read, hopen, hclose] using hfronts.2 front hfront
        · simpa [read, hopen, hclose] using hcount
        · simp [read, hopen, hclose] at hplain ⊢
          grind

/-! ### Rounds -/

theorem exists_inner_of_afterBracket {cs rest : List Char} (h : afterBracket cs = some rest) :
    ∃ inner, cs = inner ++ '>' :: rest ∧ ∀ c ∈ inner, c ≠ '<' ∧ c ≠ '>' := by
  induction cs with
  | nil => simp [afterBracket] at h
  | cons c cs ih =>
    rw [afterBracket] at h
    split at h
    · rename_i hc
      cases h
      exact ⟨[], by simp [eq_of_beq hc], by simp⟩
    · split at h
      · cases h
      · rename_i hclose hopen
        obtain ⟨inner, rfl, hinner⟩ := ih h
        refine ⟨c :: inner, rfl, List.forall_mem_cons.2 ⟨⟨?_, ?_⟩, hinner⟩⟩
        · simpa using hopen
        · simpa using hclose

/-- A round removes brackets that match. -/
theorem foldl_dropInnermost (cs : List Char) (m : Matcher) :
    (dropInnermost cs).foldl Matcher.read m = cs.foldl Matcher.read m := by
  induction cs using dropInnermost.induct generalizing m with
  | case1 => rw [dropInnermost]
  | case2 c rest hc after hafter ih =>
    obtain ⟨inner, rfl, hinner⟩ := exists_inner_of_afterBracket hafter
    rw [dropInnermost, if_pos hc, hafter, eq_of_beq hc, Matcher.foldl_read_pair hinner]
    exact ih m
  | case3 c rest hc hafter ih =>
    rw [dropInnermost, if_pos hc, hafter]
    exact ih _
  | case4 c rest hc ih =>
    rw [dropInnermost, if_neg hc]
    exact ih _

theorem dropInnermost_sublist (cs : List Char) : (dropInnermost cs).Sublist cs := by
  induction cs using dropInnermost.induct with
  | case1 => simp [dropInnermost]
  | case2 c rest hc after hafter ih =>
    obtain ⟨inner, rfl, -⟩ := exists_inner_of_afterBracket hafter
    rw [dropInnermost, if_pos hc, hafter]
    have hafter : after.Sublist (inner ++ '>' :: after) :=
      (List.sublist_cons_self '>' after).trans (List.sublist_append_right inner _)
    exact (ih.trans hafter).cons c
  | case3 c rest hc hafter ih =>
    rw [dropInnermost, if_pos hc, hafter]
    exact ih.cons_cons c
  | case4 c rest hc ih =>
    rw [dropInnermost, if_neg hc]
    exact ih.cons_cons c

theorem dropInnermost_eq_self_of_length {cs : List Char} (h : ¬(dropInnermost cs).length < cs.length) :
    dropInnermost cs = cs :=
  (dropInnermost_sublist cs).eq_of_length_le (Nat.le_of_not_lt h)

theorem not_mem_of_afterBracket_eq_none {cs : List Char} (h : afterBracket cs = none)
    (hapart : Apart cs) : '>' ∉ cs := by
  induction cs with
  | nil => exact List.not_mem_nil
  | cons c cs ih =>
    obtain ⟨hc, hcs⟩ := List.pairwise_cons.1 hapart
    rw [afterBracket] at h
    split at h
    · cases h
    · rename_i hclose
      rw [List.mem_cons, not_or]
      refine ⟨fun heq => hclose (by simp [← heq]), ?_⟩
      split at h
      · rename_i hopen
        exact fun hmem => hc _ hmem ⟨eq_of_beq hopen, rfl⟩
      · exact ih h hcs

/-- Where a round changes nothing, no brackets match. -/
theorem apart_of_dropInnermost_eq_self {cs : List Char} (h : dropInnermost cs = cs) : Apart cs := by
  induction cs using dropInnermost.induct with
  | case1 => exact .nil
  | case2 c rest hc after hafter ih =>
    rw [dropInnermost, if_pos hc, hafter] at h
    have hlength := congrArg List.length h
    have hround := (dropInnermost_sublist after).length_le
    have := length_afterBracket hafter
    simp only [List.length_cons] at hlength
    omega
  | case3 c rest hc hafter ih =>
    rw [dropInnermost, if_pos hc, hafter] at h
    have hrest := ih (List.cons.inj h).2
    refine List.pairwise_cons.2 ⟨fun b hb hpair => ?_, hrest⟩
    exact not_mem_of_afterBracket_eq_none hafter hrest (hpair.2 ▸ hb)
  | case4 c rest hc ih =>
    rw [dropInnermost, if_neg hc] at h
    refine List.pairwise_cons.2 ⟨fun b _ hpair => hc (by simp [hpair.1]), ?_⟩
    exact ih (List.cons.inj h).2

/-- The rounds end, and what they leave is left by the first one that changes nothing. -/
theorem exists_isLeast_round (cs : List Char) :
    ∃ n, IsLeast {n | dropInnermost^[n + 1] cs = dropInnermost^[n] cs} n ∧
      dropArguments cs = dropInnermost^[n] cs := by
  induction cs using dropArguments.induct with
  | case1 cs next hlt ih =>
    obtain ⟨n, ⟨hn, hleast⟩, hresult⟩ := ih
    refine ⟨n + 1, ⟨hn, fun m hm => ?_⟩, ?_⟩
    · cases m with
      | zero =>
        have hround : dropInnermost cs = cs := hm
        exact absurd hlt (by simp [next, hround])
      | succ m => exact Nat.succ_le_succ (hleast hm)
    · rw [dropArguments, if_pos hlt, hresult]
      rfl
  | case2 cs next hlt =>
    refine ⟨0, ⟨dropInnermost_eq_self_of_length hlt, fun m _ => Nat.zero_le m⟩, ?_⟩
    rw [dropArguments, if_neg hlt]
    rfl

theorem apart_dropArguments (cs : List Char) : Apart (dropArguments cs) := by
  obtain ⟨n, ⟨hn, -⟩, hresult⟩ := exists_isLeast_round cs
  rw [hresult]
  refine apart_of_dropInnermost_eq_self ?_
  rwa [← Function.iterate_succ_apply' dropInnermost]

theorem dropArguments_eq_unmatched (cs : List Char) : dropArguments cs = unmatched cs := by
  have hrounds (n : Nat) : unmatched (dropInnermost^[n] cs) = unmatched cs := by
    induction n with
    | zero => rfl
    | succ n ih => rw [Function.iterate_succ_apply', unmatched, foldl_dropInnermost, ← unmatched, ih]
  obtain ⟨n, -, hresult⟩ := exists_isLeast_round cs
  rw [← unmatched_of_apart (apart_dropArguments cs), hresult, hrounds]

/-! ### Plain names -/

theorem mem_dotsToBrackets {cs : List Char} {c : Char} (hc : c ∈ dotsToBrackets cs)
    (hbracket : c = '<' ∨ c = '>') : c ∈ cs := by
  induction cs using dotsToBrackets.induct with
  | case1 rest ih =>
    rw [dotsToBrackets] at hc
    rcases List.mem_cons.1 hc with rfl | hc
    · simp at hbracket
    · rcases List.mem_cons.1 hc with rfl | hc
      · simp at hbracket
      · simp [ih hc]
  | case2 d rest hdots ih =>
    rw [dotsToBrackets] at hc
    · rcases List.mem_cons.1 hc with rfl | hc
      · exact List.mem_cons_self
      · exact List.mem_cons_of_mem _ (ih hc)
    · exact hdots
  | case3 => exact hc

theorem apart_dotsToBrackets {cs : List Char} (h : Apart cs) : Apart (dotsToBrackets cs) := by
  induction cs using dotsToBrackets.induct with
  | case1 rest ih =>
    rw [dotsToBrackets]
    have hrest := ih (List.Pairwise.of_cons (List.Pairwise.of_cons (List.Pairwise.of_cons h)))
    exact .cons (fun b _ hpair => by simp at hpair) (.cons (fun b _ hpair => by simp at hpair) hrest)
  | case2 d rest hdots ih =>
    obtain ⟨hd, hrest⟩ := List.pairwise_cons.1 h
    rw [dotsToBrackets]
    · exact .cons (fun b hb hpair => hd b (mem_dotsToBrackets hb (.inr hpair.2)) hpair) (ih hrest)
    · exact hdots
  | case3 => exact h

/-- **Type arguments go with their brackets**: the rounds end with the first one that changes nothing, and
leave the text without the brackets that match and all that is between them.  So a plain name has no
blank and no opening bracket to the left of a closing one, and no brackets at all if they are balanced
where the annotations are left out. -/
theorem arguments_go_with_their_brackets (cs : List Char) (text : String) :
    (∃ n, IsLeast {n | dropInnermost^[n + 1] cs = dropInnermost^[n] cs} n ∧
      dropArguments cs = dropInnermost^[n] cs) ∧
    dropArguments cs = unmatched cs ∧
    (∀ c ∈ (erase text).toList, isBlank c = false) ∧
    (erase text).toList.Pairwise (fun a b => ¬(a = '<' ∧ b = '>')) ∧
    (Balanced (dropAnnotations text.toList) → '<' ∉ (erase text).toList ∧ '>' ∉ (erase text).toList) := by
  have hchars : (erase text).toList = eraseChars text.toList := String.toList_ofList
  rw [hchars]
  refine ⟨exists_isLeast_round cs, dropArguments_eq_unmatched cs, fun c hc => ?_, ?_, fun hbalanced => ?_⟩
  · simpa using (List.mem_filter.1 hc).2
  · exact (apart_dotsToBrackets (apart_dropArguments _)).filter _
  · have hnone : '<' ∉ dropArguments (dropAnnotations text.toList) ∧
        '>' ∉ dropArguments (dropAnnotations text.toList) := by
      rw [dropArguments_eq_unmatched]
      refine Matcher.foldl_balanced ?_ ?_ (by simp)
      · simpa using hbalanced.2
      · simpa using hbalanced.1
    refine ⟨fun hmem => hnone.1 ?_, fun hmem => hnone.2 ?_⟩
    · exact mem_dotsToBrackets (List.mem_filter.1 hmem).1 (.inl rfl)
    · exact mem_dotsToBrackets (List.mem_filter.1 hmem).1 (.inr rfl)

/-- The bracket that an annotation quotes is gone before brackets are matched. -/
theorem quoted_bracket_leaves_its_partner :
    Balanced "List<@Pattern(\">\") T".toList ∧ erase "List<@Pattern(\">\") T" = "List<T" := by
  decide +kernel

theorem nested_arguments_go :
    Balanced (dropAnnotations "Map<@Id(\"<\") K, List<V>>".toList) ∧
      '<' ∉ (erase "Map<@Id(\"<\") K, List<V>>").toList ∧
      '>' ∉ (erase "Map<@Id(\"<\") K, List<V>>").toList := by
  have hbalanced : Balanced (dropAnnotations "Map<@Id(\"<\") K, List<V>>".toList) := by decide +kernel
  exact ⟨hbalanced, (arguments_go_with_their_brackets [] _).2.2.2.2 hbalanced⟩

end TaintFlow.Types
