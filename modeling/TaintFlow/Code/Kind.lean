/-!
# Categories of program nodes

Every expression and statement belongs to a category.  Rule sets name categories by number or by
label; the numbers are part of the catalog format and have gaps.  The category `literal` belongs
to no node: a rule set that holds it accepts every expression that reduces to a literal.
-/

namespace TaintFlow.Code

/-- Category of an expression or statement. -/
inductive Kind where
  | unsupported
  | literal
  | arrayInitializer
  | assignment
  | block
  | booleanLiteral
  | cast
  | characterLiteral
  | creation
  | conditional
  | doLoop
  | expressionStatement
  | forLoop
  | ifStatement
  | binary
  | call
  | nullLiteral
  | numberLiteral
  | parenthesized
  | unary
  | qualifiedName
  | returnStatement
  | simpleName
  | stringLiteral
  | switchStatement
  | tryStatement
  | variableDeclaration
  | whileLoop
  | forEachLoop
  deriving DecidableEq, Repr

namespace Kind

/-- Number of a category in the catalog format. -/
def code : Kind → Nat
  | unsupported => 0
  | literal => 1
  | arrayInitializer => 4
  | assignment => 7
  | block => 8
  | booleanLiteral => 9
  | cast => 11
  | characterLiteral => 13
  | creation => 14
  | conditional => 16
  | doLoop => 19
  | expressionStatement => 21
  | forLoop => 24
  | ifStatement => 25
  | binary => 27
  | call => 32
  | nullLiteral => 33
  | numberLiteral => 34
  | parenthesized => 36
  | unary => 38
  | qualifiedName => 40
  | returnStatement => 41
  | simpleName => 42
  | stringLiteral => 45
  | switchStatement => 50
  | tryStatement => 54
  | variableDeclaration => 60
  | whileLoop => 61
  | forEachLoop => 70

/-- Label of a category in the catalog format. -/
def label : Kind → String
  | unsupported => "UNSUPPORTED"
  | literal => "LITERAL"
  | arrayInitializer => "ARRAY_INITIALIZER"
  | assignment => "ASSIGNMENT"
  | block => "BLOCK"
  | booleanLiteral => "BOOLEAN_LITERAL"
  | cast => "CAST_EXPRESSION"
  | characterLiteral => "CHARACTER_LITERAL"
  | creation => "CLASS_INSTANCE_CREATION"
  | conditional => "CONDITIONAL_EXPRESSION"
  | doLoop => "DO_STATEMENT"
  | expressionStatement => "EXPRESSION_STATEMENT"
  | forLoop => "FOR_STATEMENT"
  | ifStatement => "IF_STATEMENT"
  | binary => "INFIX_EXPRESSION"
  | call => "METHOD_INVOCATION"
  | nullLiteral => "NULL_LITERAL"
  | numberLiteral => "NUMBER_LITERAL"
  | parenthesized => "PARENTHESIZED_EXPRESSION"
  | unary => "PREFIX_EXPRESSION"
  | qualifiedName => "QUALIFIED_NAME"
  | returnStatement => "RETURN_STATEMENT"
  | simpleName => "SIMPLE_NAME"
  | stringLiteral => "STRING_LITERAL"
  | switchStatement => "SWITCH_STATEMENT"
  | tryStatement => "TRY_STATEMENT"
  | variableDeclaration => "VARIABLE_DECLARATION_STATEMENT"
  | whileLoop => "WHILE_STATEMENT"
  | forEachLoop => "ENHANCED_FOR_STATEMENT"

/-- All categories, by increasing number. -/
def all : List Kind :=
  [unsupported, literal, arrayInitializer, assignment, block, booleanLiteral, cast,
   characterLiteral, creation, conditional, doLoop, expressionStatement, forLoop, ifStatement,
   binary, call, nullLiteral, numberLiteral, parenthesized, unary, qualifiedName,
   returnStatement, simpleName, stringLiteral, switchStatement, tryStatement,
   variableDeclaration, whileLoop, forEachLoop]

/-- The category with a given number. -/
def ofCode? (n : Int) : Option Kind :=
  all.find? fun k => (k.code : Int) == n

/-- The category with a given label. -/
def ofLabel? (text : String) : Option Kind :=
  all.find? fun k => k.label == text

theorem mem_all (k : Kind) : k ∈ all := by
  cases k <;> decide

theorem ofCode?_code (k : Kind) : ofCode? k.code = some k := by
  cases k <;> decide

end Kind

end TaintFlow.Code
