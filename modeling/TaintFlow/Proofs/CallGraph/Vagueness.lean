import TaintFlow.Catalog.Basic
import TaintFlow.Proofs.CallGraph.Resolution
import TaintFlow.Proofs.Types.Names

/-!
# Calls of which less is known

Of a type that a call tells, one may forget the package, or everything (`Types.Vaguer`).  A signature
that fits a call site fits every site with vaguer types (`Site.Vaguer.fits`), although two types that
both match a third one need not match each other: what is forgotten only ever turns a comparison of
whole names into one of simple names, or into none at all.

So the searches that look for a fit find one for the vaguer call, too.  The exception is
`CallGraph.resolve`, which never answers for a call on an unknown type.
-/

namespace TaintFlow

open TaintFlow.Code TaintFlow.Types

/-! ### Types -/

namespace Types

/-- Of a type, nothing, the package or everything is forgotten. -/
inductive Vaguer : Option String → Option String → Prop where
  | same (type : Option String) : Vaguer type type
  | simple (type : String) : Vaguer (some type) (some (simpleName type))
  | unknown (type : Option String) : Vaguer type none

theorem isQualified_simpleName (type : String) : isQualified (simpleName type) = false := by
  rw [isQualified, simpleName, String.toList_ofList, afterLastDot, ← Bool.not_eq_true,
    List.contains_iff_mem, List.mem_reverse]
  intro hdot
  have hne := List.mem_takeWhile_imp hdot
  exact absurd rfl (of_decide_eq_true hne)

theorem simpleName_simpleName (type : String) : simpleName (simpleName type) = simpleName type := by
  have hdot := not_mem_of_not_isQualified (isQualified_simpleName type)
  rw [simpleName, afterLastDot_eq_self hdot, String.ofList_toList]

/-- Names of one type have one simple name. -/
theorem simpleName_eq_of_same {first second : String} (h : same first second = true) :
    simpleName first = simpleName second := by
  rcases Bool.or_eq_true_iff.1 h with h | h
  · rw [beq_iff_eq.1 h]
  · exact beq_iff_eq.1 (Bool.and_eq_true_iff.1 h).2

/-- A name that may denote a type may denote what is left of it without the package. -/
theorem same_simpleName {first second : String} (h : same first second = true) :
    same first (simpleName second) = true := by
  rw [same, isQualified_simpleName, Bool.and_false, Bool.not_false, Bool.true_and,
    simpleName_simpleName, simpleName_eq_of_same h, beq_self_eq_true, Bool.or_true]

/-- No type without reference values is called like the type of the null literal. -/
theorem not_primitive_of_same_null {expected : String} (h : simpleName expected = nullType) :
    primitiveTypes.contains expected = false := by
  rw [← Bool.not_eq_true, List.contains_iff_mem]
  intro hmem
  have hnames : ∀ type ∈ primitiveTypes, simpleName type ≠ nullType := by decide
  exact hnames expected hmem h

/-- **An argument of a vaguer type** is accepted wherever one of the type itself is. -/
theorem Vaguer.accepts {expected : String} {actual actual' : Option String}
    (h : Vaguer actual actual') (haccepts : Types.accepts expected actual = true) :
    Types.accepts expected actual' = true := by
  cases h with
  | same type => exact haccepts
  | unknown type => exact Bool.or_true _
  | simple type =>
    rcases Bool.or_eq_true_iff.1 haccepts with hobject | hmatch
    · exact Bool.or_eq_true_iff.2 (.inl hobject)
    · refine Bool.or_eq_true_iff.2 (.inr ?_)
      dsimp only at hmatch ⊢
      by_cases hnull : type = nullType
      · subst hnull
        exact hmatch
      · rw [if_neg (by simpa using hnull)] at hmatch
        split
        -- the simple name of a type in a package may read like the type of the null literal
        · rename_i hsimple
          rw [← simpleName_eq_of_same hmatch] at hsimple
          rw [not_primitive_of_same_null (beq_iff_eq.1 hsimple)]
          rfl
        · exact same_simpleName hmatch

/-! ### Call sites -/

namespace Site

/-- Of the types that a call site tells, some are forgotten. -/
structure Vaguer (s s' : Site) : Prop where
  name : s'.name = s.name
  declaringType : Types.Vaguer s.declaringType s'.declaringType
  argumentTypes : List.Forall₂ Types.Vaguer s.argumentTypes s'.argumentTypes

variable {s s' : Site}

theorem Vaguer.arity (h : s.Vaguer s') : s'.arity = s.arity :=
  h.argumentTypes.length_eq.symm

theorem Vaguer.all_same (h : s.Vaguer s') {type : String}
    (hsame : s.declaringType.all (same type ·) = true) :
    s'.declaringType.all (same type ·) = true := by
  have hdeclaring := h.declaringType
  revert hsame
  generalize s.declaringType = declaring at hdeclaring
  generalize s'.declaringType = declaring' at hdeclaring
  intro hsame
  cases hdeclaring with
  | same type => exact hsame
  | unknown type => rfl
  | simple type => exact same_simpleName hsame

theorem Vaguer.all_accepts (h : s.Vaguer s') (parameterTypes : List String)
    (haccepts : ((parameterTypes.zip s.argumentTypes).all fun p => accepts p.1 p.2) = true) :
    ((parameterTypes.zip s'.argumentTypes).all fun p => accepts p.1 p.2) = true := by
  have harguments := h.argumentTypes
  revert haccepts
  generalize s.argumentTypes = arguments at harguments
  generalize s'.argumentTypes = arguments' at harguments
  induction harguments generalizing parameterTypes with
  | nil => exact id
  | cons hvaguer _ ih =>
    cases parameterTypes with
    | nil => exact id
    | cons expected expecteds =>
      intro haccepts
      rw [List.zip_cons_cons, List.all_cons, Bool.and_eq_true_iff] at haccepts ⊢
      exact ⟨hvaguer.accepts haccepts.1, ih expecteds haccepts.2⟩

/-- **A method that fits a call site** fits every vaguer one. -/
theorem Vaguer.fits (h : s.Vaguer s') {type name : String} {parameterTypes : List String}
    (hfits : s.fits type name parameterTypes = true) :
    s'.fits type name parameterTypes = true := by
  simp only [Site.fits, Bool.and_eq_true] at hfits ⊢
  obtain ⟨⟨⟨hname, harity⟩, hsame⟩, haccepts⟩ := hfits
  exact ⟨⟨⟨h.name ▸ hname, h.arity ▸ harity⟩, h.all_same hsame⟩, h.all_accepts _ haccepts⟩

end Site

end Types

/-! ### Searches -/

/-- The signature of the method that a pattern stands for. -/
def Catalog.Pattern.signature (p : Catalog.Pattern) : Signature :=
  ⟨p.type, p.method, p.parameterTypes⟩

theorem Catalog.Pattern.fits_eq (p : Catalog.Pattern) {call : Expr} {site : Site}
    (hsite : Site.ofExpr? call = some site) : p.fits call = signatureFits p.signature site := by
  rw [Catalog.Pattern.fits, hsite]
  rfl

theorem isSome_find?_of_imp {α : Type} {p q : α → Bool} {l : List α}
    (h : ∀ a, p a = true → q a = true) (hfind : (l.find? p).isSome = true) :
    (l.find? q).isSome = true := by
  obtain ⟨a, ha, hp⟩ := List.find?_isSome.1 hfind
  exact List.find?_isSome.2 ⟨a, ha, h a hp⟩

namespace CallGraph

/-- What is found for one call is found for another one as well. -/
structure FoundAlike (call call' : Expr) : Prop where
  pattern : ∀ p : Catalog.Pattern, p.fits call = true → p.fits call' = true
  entryPoint : ∀ c : Catalog, (c.entryPoint? call).isSome = true →
    (c.entryPoint? call').isSome = true
  exitPoint : ∀ c : Catalog, (c.exitPoint? call).isSome = true → (c.exitPoint? call').isSome = true
  sanitizationPoint : ∀ c : Catalog, (c.sanitizationPoint? call).isSome = true →
    (c.sanitizationPoint? call').isSome = true
  /-- Once it is recorded, the call is among those of each method that it may call. -/
  invokers : ∀ (g : CallGraph) (unit : String) (caller : Method) (s : Signature),
    calls? s call = true → (caller, call') ∈ (g.addCall unit caller call').invokers s
  /-- A call on a known type is resolved. -/
  resolved : calledOn? call' ≠ none → ∀ (g : CallGraph) (unit : Option String),
    (g.resolve unit call).isSome = true → (g.resolve unit call').isSome = true
  /-- A call on an unknown type is not resolved. -/
  unresolved : calledOn? call' = none → ∀ (g : CallGraph) (unit : Option String),
    g.resolve unit call' = none

section

variable {call call' : Expr} {site site' : Site} (h : site.Vaguer site')
  (hsite : Site.ofExpr? call = some site) (hsite' : Site.ofExpr? call' = some site')

include h

theorem isSome_findMethod_of_vaguer {methods : Table Signature Entry}
    (hfind : (findMethod site methods).isSome = true) :
    (findMethod site' methods).isSome = true := by
  rw [findMethod, Option.isSome_map] at hfind ⊢
  exact isSome_find?_of_imp (fun _ hfits => h.fits hfits) hfind

include hsite hsite'

theorem fits_of_vaguer {p : Catalog.Pattern} (hfits : p.fits call = true) :
    p.fits call' = true := by
  rw [p.fits_eq hsite] at hfits
  rw [p.fits_eq hsite']
  exact h.fits hfits

theorem mem_invokers_of_vaguer (g : CallGraph) (unit : String) (caller : Method) {s : Signature}
    (hcalls : calls? s call = true) : (caller, call') ∈ (g.addCall unit caller call').invokers s := by
  obtain ⟨site₀, hsite₀, hfits⟩ := calls?_iff.1 hcalls
  obtain rfl := Option.some.inj (hsite.symm.trans hsite₀)
  have hfits' : signatureFits s site' = true := h.fits hfits
  have hindex : (g.addCall unit caller call').index.getD (s.name, s.arity) [] =
      g.index.getD (site'.name, site'.arity) [] ++ [⟨unit, caller, call', site'⟩] := by
    rw [addCall, hsite']
    dsimp only
    rw [Table.getD_update, if_pos (key_of_signatureFits hfits').symm]
    rfl
  rw [invokers, hindex]
  refine List.mem_map.2 ⟨⟨unit, caller, call', site'⟩, List.mem_filter.2 ⟨?_, hfits'⟩, rfl⟩
  exact List.mem_append_right _ (List.mem_singleton.2 rfl)

theorem isSome_resolve_of_vaguer (hknown : calledOn? call' ≠ none) {g : CallGraph}
    {unit : Option String} (hresolve : (g.resolve unit call).isSome = true) :
    (g.resolve unit call').isSome = true := by
  rw [calledOn?, hsite', Option.bind_some] at hknown
  rw [resolve, hsite, Option.bind_some] at hresolve
  rw [resolve, hsite', Option.bind_some, if_neg (by simpa using hknown)]
  split at hresolve
  · cases hresolve
  · rw [Option.orElse_eq_orElse, Option.orElse_eq_or, Option.isSome_or, Bool.or_eq_true_iff]
      at hresolve ⊢
    refine hresolve.imp (fun hown => ?_) fun hothers => ?_
    · cases hmethods : unit.bind g.units.get? with
      | none =>
        rw [hmethods] at hown
        cases hown
      | some methods =>
        rw [hmethods] at hown
        exact isSome_findMethod_of_vaguer h hown
    · obtain ⟨p, hp, hfind⟩ := List.findSome?_isSome_iff.1 hothers
      exact List.findSome?_isSome_iff.2 ⟨p, hp, isSome_findMethod_of_vaguer h hfind⟩

theorem foundAlike_of_vaguer : FoundAlike call call' where
  pattern _ hfits := fits_of_vaguer h hsite hsite' hfits
  entryPoint _ := isSome_find?_of_imp fun _ => fits_of_vaguer h hsite hsite'
  exitPoint _ := isSome_find?_of_imp fun _ => fits_of_vaguer h hsite hsite'
  sanitizationPoint _ := isSome_find?_of_imp fun _ => fits_of_vaguer h hsite hsite'
  invokers g unit caller _ hcalls := mem_invokers_of_vaguer h hsite hsite' g unit caller hcalls
  resolved hknown _ _ hresolve := isSome_resolve_of_vaguer h hsite hsite' hknown hresolve
  unresolved hunknown g unit := by
    rw [calledOn?, hsite', Option.bind_some] at hunknown
    rw [resolve, hsite', Option.bind_some, hunknown]
    rfl

end

/-- **Less type information never loses a match**: a signature that fits a call site fits every vaguer
one, a pattern fits a call as the signature of its method does, and so every search that finds
something for a call finds something for a call with a vaguer site, with one exception: a call on an
unknown type is never resolved. -/
theorem vaguer_calls_are_found {site site' : Site} (h : site.Vaguer site') :
    (∀ s, signatureFits s site = true → signatureFits s site' = true) ∧
      (∀ (p : Catalog.Pattern) call, Site.ofExpr? call = some site →
        p.fits call = signatureFits p.signature site) ∧
      ∀ call call', Site.ofExpr? call = some site → Site.ofExpr? call' = some site' →
        FoundAlike call call' :=
  ⟨fun _ hfits => h.fits hfits, fun p _ hsite => p.fits_eq hsite,
    fun _ _ hsite hsite' => foundAlike_of_vaguer h hsite hsite'⟩

/-- A call of a method `run` on the type, with arguments of the types. -/
def runOn (type : Option String) (arguments : List (Option String)) : Expr :=
  let origin : Origin := ⟨"", "U.java", 1, 1⟩
  .call origin "run" none (arguments.map fun a => .call origin "argument" none [] none a) type none

/-- A graph with one method, which `runOn` can call. -/
def runner : CallGraph :=
  empty.addMethod "A.java"
    ⟨⟨"com.example.Service", "run", ["a.b.null", "java.lang.String"]⟩, ⟨"A.java", 1, 1⟩, [], none, none,
      false⟩

/-- A type whose simple name reads like that of the null literal. -/
theorem vaguer_run_is_found :
    ((runner.resolve none (runOn (some "com.example.Service")
        [some "a.b.null", some "java.lang.String"])).isSome = true ∧
      FoundAlike (runOn (some "com.example.Service") [some "a.b.null", some "java.lang.String"])
        (runOn (some "Service") [some "null", none])) := by
  have h : Site.Vaguer ⟨some "com.example.Service", "run", [some "a.b.null", some "java.lang.String"]⟩
      ⟨some "Service", "run", [some "null", none]⟩ :=
    ⟨rfl, .simple "com.example.Service",
      .cons (.simple "a.b.null") (.cons (.unknown (some "java.lang.String")) .nil)⟩
  exact ⟨by decide, (vaguer_calls_are_found h).2.2 _ _ rfl rfl⟩

/-- **A call on an unknown type is not resolved**, although it is with the type. -/
theorem unknown_receiver_is_not_resolved :
    Site.Vaguer ⟨some "com.example.Service", "run", [none, none]⟩ ⟨none, "run", [none, none]⟩ ∧
      Site.ofExpr? (runOn (some "com.example.Service") [none, none]) =
        some ⟨some "com.example.Service", "run", [none, none]⟩ ∧
      Site.ofExpr? (runOn none [none, none]) = some ⟨none, "run", [none, none]⟩ ∧
      (runner.resolve none (runOn (some "com.example.Service") [none, none])).isSome = true ∧
      runner.resolve none (runOn none [none, none]) = none :=
  ⟨⟨rfl, .unknown _, .cons (.same none) (.cons (.same none) .nil)⟩, rfl, rfl, by decide, rfl⟩

end CallGraph

end TaintFlow
