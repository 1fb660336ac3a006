import TaintFlow.Catalog.Rule
import TaintFlow.Types.Site
import TaintFlow.Vulnerability

/-!
# Catalogs of points

A *point* is a method that matters to the analysis: an entry point yields tainted data, an exit
point is a sink, and a sanitization point cleans its result.  A catalog lists the points of one
family of vulnerabilities.  The first pattern that fits a call decides.
-/

namespace TaintFlow.Catalog

open TaintFlow.Code TaintFlow.Types

/-- The method that a point stands for. -/
structure Pattern where
  type : String
  method : String
  parameterTypes : List String := []
  deriving DecidableEq, Repr

namespace Pattern

/-- Whether a call may call the method of the pattern. -/
def fits (p : Pattern) (call : Expr) : Bool :=
  (Site.ofExpr? call).any fun site => site.fits p.type p.method p.parameterTypes

/-- Type and method, joined by a dot. -/
def toText (p : Pattern) : String :=
  p.type ++ "." ++ p.method

end Pattern

/-- A sink with one rule for each parameter. -/
structure ExitPoint where
  pattern : Pattern
  rules : List Rule := []
  deriving DecidableEq, Repr

/-- An exit point whose rules and parameters differ in number. -/
structure RuleCountMismatch where
  pattern : Pattern
  ruleCount : Nat
  deriving DecidableEq, Repr

/-- What is said of an exit point whose rules and parameters differ in number. -/
def RuleCountMismatch.message (m : RuleCountMismatch) : String :=
  "Exit point " ++ m.pattern.toText ++ " declares " ++ toString m.pattern.parameterTypes.length
    ++ " parameters but " ++ toString m.ruleCount ++ " rules"

/-- An exit point, provided that it has one rule for each parameter. -/
def ExitPoint.make (pattern : Pattern) (rules : List Rule) : Except RuleCountMismatch ExitPoint :=
  if rules.length = pattern.parameterTypes.length then .ok ⟨pattern, rules⟩
  else .error ⟨pattern, rules.length⟩

end TaintFlow.Catalog

namespace TaintFlow

/-- The points of one family of vulnerabilities. -/
structure Catalog where
  vulnerability : Vulnerability
  entryPoints : List Catalog.Pattern := []
  exitPoints : List Catalog.ExitPoint := []
  sanitizationPoints : List Catalog.Pattern := []
  deriving DecidableEq, Repr

namespace Catalog

open TaintFlow.Code

/-- The first entry point that fits a call. -/
def entryPoint? (c : Catalog) (call : Expr) : Option Pattern :=
  c.entryPoints.find? (·.fits call)

/-- The first exit point that fits a call. -/
def exitPoint? (c : Catalog) (call : Expr) : Option ExitPoint :=
  c.exitPoints.find? (·.pattern.fits call)

/-- The first sanitization point that fits a call. -/
def sanitizationPoint? (c : Catalog) (call : Expr) : Option Pattern :=
  c.sanitizationPoints.find? (·.fits call)

end Catalog

end TaintFlow
