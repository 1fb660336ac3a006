import TaintFlow.Text.Blank
import TaintFlow.Text.Word

/-!
# Erasure of type texts

A type as it is written in a program is reduced to a plain name: annotations, type arguments and
blanks go, and the dots of a variable-arity parameter become an array.

* `dropAnnotations` removes `@name` and `@name(…)` with the blanks that follow,
* `dropArguments` removes angle brackets with what they enclose, innermost first, until none
  is left,
* `erase` does both, rewrites `...` to `[]` and removes blanks.
-/

namespace TaintFlow.Types

open TaintFlow.Text

/-- A character of an annotation's name. -/
def isAnnotationChar (c : Char) : Bool :=
  isWord c || c == '.'

/-- What follows the first closing parenthesis. -/
def afterParen : List Char → Option (List Char)
  | [] => none
  | c :: rest => if c == ')' then some rest else afterParen rest

theorem length_afterParen {cs rest : List Char} (h : afterParen cs = some rest) :
    rest.length < cs.length := by
  induction cs with
  | nil => simp [afterParen] at h
  | cons c cs ih =>
    simp only [afterParen] at h
    split at h
    · cases h; simp
    · have := ih h; simp; omega

/-- What follows the arguments of an annotation, when it has any. -/
def dropAnnotationArguments : List Char → List Char
  | '(' :: rest => (afterParen rest).getD ('(' :: rest)
  | cs => cs

theorem length_dropAnnotationArguments (cs : List Char) :
    (dropAnnotationArguments cs).length ≤ cs.length := by
  unfold dropAnnotationArguments
  split
  · rename_i rest
    cases h : afterParen rest with
    | none => simp
    | some r => have := length_afterParen h; simp; omega
  · exact Nat.le_refl _

/-- What follows an annotation whose name begins the characters. -/
def skipAnnotationText (cs : List Char) : List Char :=
  (dropAnnotationArguments (cs.dropWhile isAnnotationChar)).dropWhile isBlank

theorem length_dropWhile_le {α : Type} (p : α → Bool) (l : List α) :
    (l.dropWhile p).length ≤ l.length :=
  (List.dropWhile_suffix p).length_le

theorem length_skipAnnotationText (cs : List Char) : (skipAnnotationText cs).length ≤ cs.length :=
  Nat.le_trans (length_dropWhile_le _ _)
    (Nat.le_trans (length_dropAnnotationArguments _) (length_dropWhile_le _ _))

/-- The characters without annotations and the blanks that follow them. -/
def dropAnnotations : List Char → List Char
  | [] => []
  | c :: rest =>
    if c == '@' && (rest.head?.any isAnnotationChar) then dropAnnotations (skipAnnotationText rest)
    else c :: dropAnnotations rest
termination_by cs => cs.length
decreasing_by
  · exact Nat.lt_succ_of_le (length_skipAnnotationText rest)
  · simp

/-- What follows the closing bracket, when no other angle bracket comes before it. -/
def afterBracket : List Char → Option (List Char)
  | [] => none
  | c :: rest => if c == '>' then some rest else if c == '<' then none else afterBracket rest

theorem length_afterBracket {cs rest : List Char} (h : afterBracket cs = some rest) :
    rest.length < cs.length := by
  induction cs with
  | nil => simp [afterBracket] at h
  | cons c cs ih =>
    simp only [afterBracket] at h
    split at h
    · cases h; simp
    · split at h
      · cases h
      · have := ih h; simp; omega

/-- Removes the angle brackets that enclose no other bracket, with what they enclose. -/
def dropInnermost : List Char → List Char
  | [] => []
  | c :: rest =>
    if c == '<' then
      match _h : afterBracket rest with
      | some after => dropInnermost after
      | none => c :: dropInnermost rest
    else c :: dropInnermost rest
termination_by cs => cs.length
decreasing_by
  · have := length_afterBracket _h; simp; omega
  · simp
  · simp

/-- Removes angle brackets with what they enclose, innermost first, until none is left. -/
def dropArguments (cs : List Char) : List Char :=
  let next := dropInnermost cs
  if next.length < cs.length then dropArguments next else cs
termination_by cs.length

/-- Rewrites three dots in a row to a pair of square brackets. -/
def dotsToBrackets : List Char → List Char
  | '.' :: '.' :: '.' :: rest => '[' :: ']' :: dotsToBrackets rest
  | c :: rest => c :: dotsToBrackets rest
  | [] => []

/-- The plain name of a type as it is written in a program. -/
def eraseChars (cs : List Char) : List Char :=
  (dotsToBrackets (dropArguments (dropAnnotations cs))).filter fun c => !isBlank c

/-- The plain name of a type as it is written in a program. -/
def erase (text : String) : String :=
  String.ofList (eraseChars text.toList)

end TaintFlow.Types
