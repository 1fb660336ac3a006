import TaintFlow.Types.Static

/-!
# Call sites

What a call tells of the method it calls: the type it is called on, the name and the static types
of the arguments.  A signature fits a call site when name and number of parameters agree and
no type that is known speaks against it.
-/

namespace TaintFlow.Types

open TaintFlow.Code

/-- What a call tells of its target. -/
structure Site where
  /-- Type the method is called on, when it is known. -/
  declaringType : Option String
  name : String
  argumentTypes : List (Option String) := []
  deriving DecidableEq, Repr

namespace Site

/-- Number of arguments. -/
def arity (s : Site) : Nat :=
  s.argumentTypes.length

/-- What a call tells of its target; other expressions call nothing. -/
def ofExpr? : Expr → Option Site
  | .creation _ type args => some ⟨nonempty? type, simpleName type, args.map staticType⟩
  | .call _ method _ args receiver _ => some ⟨receiver, method, args.map staticType⟩
  | _ => none

/-- Whether a method of type `type` called `name` with the given parameter types fits the site. -/
def fits (s : Site) (type name : String) (parameterTypes : List String) : Bool :=
  name == s.name && parameterTypes.length == s.arity
    && s.declaringType.all (same type ·)
    && (parameterTypes.zip s.argumentTypes).all fun p => accepts p.1 p.2

end Site

/-- Whether a call site may call the method with the given signature. -/
def signatureFits (signature : Signature) (site : Site) : Bool :=
  site.fits signature.declaringType signature.name signature.parameterTypes

end TaintFlow.Types
