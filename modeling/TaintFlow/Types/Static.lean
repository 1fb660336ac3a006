import TaintFlow.Code.Expr
import TaintFlow.Text.Case
import TaintFlow.Types.Compare

/-!
# Static types of expressions

The type of an expression as far as its own words and the declarations of its names tell it.
-/

namespace TaintFlow.Types

open TaintFlow.Code TaintFlow.Text

/-- Operators whose result is a truth value. -/
def comparisonOperators : List String :=
  ["==", "!=", "<", ">", "<=", ">=", "&&", "||", "instanceof"]

/-- Type of a number literal, read off its radix, suffix and decimal point. -/
def numberType (text : String) : String :=
  let digits := (Text.lower text).toList.filter (· ≠ '_')
  let radix := ['0', 'x'].isPrefixOf digits || ['0', 'b'].isPrefixOf digits
  let last := digits.getLast?
  if radix then if last == some 'l' then "long" else "int"
  else if last == some 'l' then "long"
  else if last == some 'f' then "float"
  else if last == some 'd' || digits.contains '.' || digits.contains 'e' then "double"
  else "int"

/-- Type of a literal with the given words. -/
def literalType (kind : Kind) (text : String) : Option String :=
  match kind with
  | .stringLiteral => some stringType
  | .characterLiteral => some "char"
  | .booleanLiteral => some "boolean"
  | .nullLiteral => some nullType
  | .numberLiteral => some (numberType text)
  | _ => none

/-- A type name, unless it is empty. -/
def nonempty? (type : String) : Option String :=
  if type == "" then none else some type

/-- Type of a simple name. -/
def nameType (n : Name) : Option String :=
  n.binding.bind (·.declaredType)

/-- Type of a binary expression over operands of the given types. -/
def binaryType (operator : String) (operands : List (Option String)) : Option String :=
  if comparisonOperators.contains operator then some "boolean"
  else if operator == "+" && operands.contains (some stringType) then some stringType
  else (operands.filterMap id).head?

mutual

/-- Static type of an expression, when it is known. -/
def staticType : Expr → Option String
  | .literal o k => literalType k o.text
  | .name n => nameType n
  | .qualified _ _ m => m.bind nameType
  | .parenthesized _ e => staticTypeOpt e
  | .cast _ t _ => nonempty? t
  | .creation _ t _ => nonempty? t
  | .array _ _ t => t
  | .call _ _ _ _ _ t => t
  | .assignment _ _ l _ => staticTypeOpt l
  | .conditional _ _ a b =>
    match staticTypeOpt a with
    | some t => if t == "" then staticTypeOpt b else some t
    | none => staticTypeOpt b
  | .unary _ op e => if op == "!" then some "boolean" else staticTypeOpt e
  | .binary _ op none none => binaryType op []
  | .binary _ op (some l) none => binaryType op [staticType l]
  | .binary _ op none (some r) => binaryType op [staticType r]
  | .binary _ op (some l) (some r) => binaryType op [staticType l, staticType r]
  | .unsupported .. => none
  | .textOnly _ => none
termination_by structural e => e

/-- A missing expression has no type. -/
def staticTypeOpt : Option Expr → Option String
  | none => none
  | some e => staticType e
termination_by structural e => e

end

end TaintFlow.Types
