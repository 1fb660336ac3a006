import TaintFlow.Code.Expr

/-!
# Rules for parameters of exit points

A rule says which arguments of a sink are safe as they are written: every argument, or those of
certain categories.  Categories are numbers; a number that belongs to no category is allowed and
accepts nothing.
-/

namespace TaintFlow.Catalog

open TaintFlow.Code

/-- Which arguments are safe for one parameter of a sink. -/
structure Rule where
  /-- Numbers of the accepted categories. -/
  accepted : List Int := []
  /-- Whether the parameter is of no concern. -/
  ignore : Bool := false
  deriving DecidableEq, Repr

namespace Rule

/-- The rule for a parameter of no concern. -/
def ignored : Rule := { ignore := true }

/-- The rule that accepts what reduces to a literal. -/
def literalOnly : Rule := { accepted := [(Kind.literal.code : Int)] }

/-- Whether everything that reduces to a literal is accepted. -/
def acceptsLiterals (r : Rule) : Bool :=
  r.accepted.contains (Kind.literal.code : Int)

/-- Whether an argument is safe as it is written. -/
def accepts (r : Rule) (e : Expr) : Bool :=
  r.ignore || r.accepted.contains (e.kind.code : Int)
    || (r.acceptsLiterals && e.reducesToLiteral)

/-- Name of a category number, the number itself when it belongs to no category. -/
def categoryText (n : Int) : String :=
  match Kind.ofCode? n with
  | some k => k.label
  | none => toString n

/-- A sorted list without repetitions of neighbours. -/
def dropRepeats : List Int → List Int
  | a :: b :: rest => if a = b then dropRepeats (b :: rest) else a :: dropRepeats (b :: rest)
  | short => short

/-- The rule as it is written in listings. -/
def toText (r : Rule) : String :=
  if r.ignore then "ignore"
  else "[" ++ ", ".intercalate ((dropRepeats r.accepted.mergeSort).map categoryText) ++ "]"

end Rule

end TaintFlow.Catalog
