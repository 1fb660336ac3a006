import TaintFlow.Proofs.CallGraph.Overloads
import TaintFlow.Proofs.Types.Names

/-!
# References to the types of other units

A unit refers to a type of its package by the name that the type has inside the package.  It cannot
tell the package from that, so the reference stays as it is, and it is compared with the name under
which the other unit declares the type.  The two are the same if the reference is simple, or if the
package has no name.  A reference to a nested type of a named package has a dot, and so has the name
of the type; they are different, and calls on such a type do not find their methods.

* `exists_reference` : the name of a type is its package and a reference.
* `references_across_units` : what another unit makes of the reference.
* `nested_reference_not_found` : a call on a nested type of the same package that is not resolved.
-/

namespace TaintFlow

open TaintFlow.Code TaintFlow.Types

namespace Java

/-! ### Names of types and references -/

theorem qualify_eq {around : String} (h : around ≠ "") (name : String) :
    qualify around name = around ++ "." ++ name :=
  if_neg (by simpa using h)

theorem qualify_qualify {package around : String} (h : around ≠ "") (name : String) :
    qualify (qualify package around) name = qualify package (around ++ "." ++ name) := by
  by_cases hpackage : package = ""
  · subst hpackage
    exact qualify_eq h name
  · have hne : package ++ "." ++ around ≠ "" := by
      intro hempty
      have hlength := congrArg String.length hempty
      simp at hlength
    rw [qualify_eq hpackage, qualify_eq hpackage, qualify_eq hne]
    simp only [String.append_assoc]

theorem qualify_injective {package r r' : String} (h : qualify package r = qualify package r') :
    r = r' := by
  by_cases hpackage : package = ""
  · subst hpackage
    exact h
  · have htoList := congrArg String.toList h
    rw [toList_qualify hpackage, toList_qualify hpackage, List.append_cancel_left_eq,
      List.cons.injEq] at htoList
    exact String.toList_injective htoList.2

/-- The name of a type is its package and a reference to it. -/
theorem exists_reference {S : Source} {package : String} {around : Option String} {t : Tree}
    (haround : ∀ a ∈ around, ∃ r, a = qualify package r ∧ IsReference r)
    (hnames : ∀ d ∈ declared S (javaName package) around t, d.2.isTypeDeclaration = true →
      isTypeName (S.nameOf d.2) = true)
    (ht : t.isTypeDeclaration = true) {d : String × Tree}
    (hd : d ∈ declared S (javaName package) around t) (htype : d.2.isTypeDeclaration = true) :
    ∃ r, d.1 = qualify package r ∧ IsReference r := by
  induction hsize : t.size using Nat.strongRecOn generalizing around t with
  | ind n ih =>
    rw [declared_eq] at hd hnames
    have hown : ∃ r, javaName package around (S.nameOf t) = qualify package r ∧ IsReference r := by
      have hname := hnames _ List.mem_cons_self ht
      cases around with
      | none => exact ⟨S.nameOf t, rfl, .simple hname⟩
      | some a =>
        obtain ⟨r, rfl, hr⟩ := haround a rfl
        exact ⟨r ++ "." ++ S.nameOf t, qualify_qualify hr.ne_empty _, .nested hr hname⟩
    rcases List.mem_cons.1 hd with rfl | hd
    · exact hown
    · obtain ⟨m, hm, hd⟩ := List.mem_flatMap.1 hd
      unfold declaredIn at hd
      split at hd
      · rename_i hmember
        refine ih m.1.size (hsize ▸ m.2) ?_ (fun d' hd' => ?_) hmember hd rfl
        · intro a ha
          rw [← Option.mem_some.1 ha]
          exact hown
        · refine hnames d' (List.mem_cons_of_mem _ (List.mem_flatMap.2 ⟨m, hm, ?_⟩))
          rwa [declaredIn, if_pos hmember]
      · rename_i hmember
        split at hd
        · rw [List.mem_singleton.1 hd] at htype
          exact absurd htype hmember
        · cases hd

/-- The package and the imports of a unit. -/
theorem unitOfTree_heading {S : Source} {root : Tree} {u : SourceUnit}
    (h : unitOfTree S root = .ok u) :
    u.package = (headed S root).package ∧ u.imports = (collected S root).imports := by
  obtain ⟨s, hrun, rfl⟩ := exists_state_of_unitOfTree h
  have hheading := (adds_readUnit hrun).heading
  have hpackage : s.heading.package = (collected S root).heading.package := by rw [hheading]
  have himports : s.heading.imports = (collected S root).heading.imports := by rw [hheading]
  exact ⟨Eq.trans hpackage (foldl_noted_package S _ _), himports⟩

/-- A unit that neither imports nor declares a type does not know its name, unless the type needs no
import. -/
theorem qualifiedHead?_collected {S : Source} {root : Tree} {u : SourceUnit}
    (h : unitOfTree S root = .ok u) {head : String} (himport : head ∉ u.imports.keys)
    (hdeclared : ∀ d ∈ javaDeclarations S root, d.2.isTypeDeclaration = true → S.nameOf d.2 ≠ head)
    (hlanguage : head ∉ languageTypes) (single : Bool) :
    (collected S root).qualifiedHead? head single = none := by
  rw [(unitOfTree_heading h).2] at himport
  have hlocal : (collected S root).localTypes.get? head = none := by
    rw [get?_localTypes_collected, firstNamed?, Option.map_eq_none_iff, List.find?_eq_none]
    intro d hd hnamed
    simp only [isTypeNamed, Bool.and_eq_true, beq_iff_eq] at hnamed
    exact hdeclared d hd hnamed.1 hnamed.2
  have hcontains : languageTypes.contains head = false := by
    rw [← Bool.not_eq_true, List.contains_iff_mem]
    exact hlanguage
  rw [State.qualifiedHead?, Table.get?_eq_none_iff.2 himport, hlocal, hcontains, Bool.and_false]
  rfl

end Java

namespace CallGraph

open Java (unitOfTree javaDeclarations collected qualify)

/-! ### Calls on types of other units -/

/-- What a unit `u'` makes of a reference `r` to the type `q` of a unit `u`. -/
structure SeenFrom (u : SourceUnit) (q r : String) (u' : SourceUnit) (names : Java.State) : Prop where
  /-- The reference is resolved to itself, whatever erasure takes away from how it is written. -/
  resolved : ∀ text, erase text = r → names.resolveType text = some r
  written : erase r = r
  same_iff : same q r = true ↔ u.package = "" ∨ isQualified r = false
  /-- A call on a variable that is declared with the reference is made on it.  It fits a method of the
  type with its name, when the parameters accept the arguments, exactly if the names are the same. -/
  fits : ∀ m ∈ u.methods, m.signature.declaringType = q → ∀ o n b args type result,
    u'.Holds (.call o m.signature.name (some (.name n)) args type result) → n.binding = some b →
    (∃ text, erase text = r ∧ b.declaredType = names.resolveType text) →
    m.signature.arity = args.length →
    (∀ p ∈ m.signature.parameterTypes.zip (args.map staticType), accepts p.1 p.2 = true) →
    type = some r ∧
      calls? m.signature (.call o m.signature.name (some (.name n)) args type result) = same q r
  /-- A call that fits a method of the type is resolved, in every graph that holds the unit, and to
  the method itself if no other fits. -/
  found : ∀ m ∈ u.methods, ∀ o name receiver args result,
    calls? m.signature (.call o name receiver args (some r) result) = true →
    ∀ changes, (build changes).units.get? u.path = some (methodTable u) →
      (∃ d, (build changes).resolve (some u'.path)
        (.call o name receiver args (some r) result) = some d) ∧
      ((∀ path, ∀ d ∈ (build changes).methods path,
          calls? d.signature (.call o name receiver args (some r) result) = true → d = m) →
        (build changes).resolve (some u'.path)
          (.call o name receiver args (some r) result) = some m)
  /-- If the names are not the same, a call is resolved to no method of the type. -/
  missed : same q r = false → ∀ o name receiver args result changes d,
    (build changes).resolve (some u'.path)
      (.call o name receiver args (some r) result) = some d → d.signature.declaringType ≠ q

theorem calls?_call {s : Signature} {o : Origin} {receiver : Option Expr} {args : List Expr}
    {r : String} {result : Option String} (harity : s.arity = args.length)
    (haccepts : ∀ p ∈ s.parameterTypes.zip (args.map staticType), accepts p.1 p.2 = true) :
    calls? s (.call o s.name receiver args (some r) result) = same s.declaringType r := by
  have hlength : (s.parameterTypes.length == (args.map staticType).length) = true := by
    rw [List.length_map, beq_iff_eq]
    exact harity
  have hall : ((s.parameterTypes.zip (args.map staticType)).all fun p => accepts p.1 p.2) = true :=
    List.all_eq_true.2 haccepts
  simp only [calls?, Site.ofExpr?, Option.any_some, signatureFits, Site.fits, Site.arity, hlength, hall,
    beq_self_eq_true, Bool.true_and, Option.all_some, Bool.and_true]

/-- **References across units**: for every type of a unit and every other unit that neither imports
nor declares a type with the name of the first component, and for which it is not the name of a type
that needs no import. -/
theorem references_across_units {S S' : Java.Source} {root root' : Java.Tree} {u u' : SourceUnit}
    (hread : unitOfTree S root = .ok u) (hread' : unitOfTree S' root' = .ok u')
    (hnames : ∀ d ∈ javaDeclarations S root, d.2.isTypeDeclaration = true →
      isTypeName (S.nameOf d.2) = true)
    {q r : String} {t : Java.Tree} (hq : (q, t) ∈ javaDeclarations S root)
    (ht : t.isTypeDeclaration = true) (hr : q = qualify u.package r)
    (himport : firstComponent r ∉ u'.imports.keys)
    (hdeclared : ∀ d ∈ javaDeclarations S' root', d.2.isTypeDeclaration = true →
      S'.nameOf d.2 ≠ firstComponent r)
    (hlanguage : firstComponent r ∉ languageTypes) :
    SeenFrom u q r u' (collected S' root') := by
  have hreference : IsReference r := by
    obtain ⟨t₀, ht₀, hmem⟩ := List.mem_flatMap.1 hq
    have hnone : ∀ a ∈ (none : Option String), ∃ r, a = qualify (Java.headed S root).package r ∧
        IsReference r := by
      intro a ha
      cases ha
    obtain ⟨r', hr', hreference⟩ := Java.exists_reference hnone
      (fun d hd => hnames d (List.mem_flatMap.2 ⟨t₀, ht₀, hd⟩)) (List.mem_filter.1 ht₀).2 hmem ht
    rw [(Java.unitOfTree_heading hread).1] at hr
    rw [Java.qualify_injective (hr.symm.trans hr')]
    exact hreference
  have hresolved : ∀ text, erase text = r → (collected S' root').resolveType text = some r :=
    fun text => hreference.resolveType
      (Java.qualifiedHead?_collected hread' himport hdeclared hlanguage)
  have hsite : ∀ o name receiver args result,
      Site.ofExpr? (.call o name receiver args (some r) result) =
        some ⟨some r, name, args.map staticType⟩ := fun _ _ _ _ _ => rfl
  constructor
  case resolved => exact hresolved
  case written => exact hreference.erase_eq_self
  case same_iff =>
    rw [hr, same_qualify]
    simp
  case fits =>
    rintro m _ hm o n b args type result hcall hb ⟨text, htext, htype⟩ harity haccepts
    obtain rfl : type = some r := by
      rw [(Java.typed_of_holds hread' hcall).2 n b rfl hb, htype, hresolved text htext]
    exact ⟨rfl, by rw [calls?_call harity haccepts, hm]⟩
  case found =>
    intro m hm o name receiver args result hcalls changes hunit
    have hfits := hcalls
    rw [calls?, hsite, Option.any_some] at hfits
    have hsome : (u.methods.find? fun d => signatureFits d.signature
        ⟨some r, name, args.map staticType⟩).isSome = true := List.find?_isSome.2 ⟨m, hm, hfits⟩
    obtain ⟨first, hfirst⟩ := Option.isSome_iff_exists.1 hsome
    obtain ⟨d, hd⟩ := exists_resolve (hsite o name receiver args result)
      (Option.some_ne_none r) hunit
      ((findMethod_methodTable _ u).trans hfirst) (some u'.path)
    refine ⟨⟨d, hd⟩, fun honly => ?_⟩
    obtain ⟨path, hpath⟩ := (keyed_build changes).exists_mem_methods hd
    rw [hd, honly path d hpath ((consistent_build changes).calls?_of_resolve hd)]
  case missed =>
    rintro hsame o name receiver args result changes d hd rfl
    have hcalls := (consistent_build changes).calls?_of_resolve hd
    simp only [calls?, hsite, Option.any_some, signatureFits, Site.fits, Option.all_some,
      Bool.and_eq_true] at hcalls
    rw [hsame] at hcalls
    exact Bool.false_ne_true hcalls.1.2

/-- A type of a package. -/
def memberType : String :=
  "package p; class A \x7b void f() \x7b \x7d \x7d"

/-- A call on that type. -/
def memberCall : String :=
  "package p; class B \x7b void g(A x) \x7b x.f(); \x7d \x7d"

theorem member_reference_resolved :
    ∃ u u', unitOfTree (.ofText "A.java" memberType) (Java.treeOf memberType) = .ok u ∧
      unitOfTree (.ofText "B.java" memberCall) (Java.treeOf memberCall) = .ok u' ∧
      SeenFrom u "p.A" "A" u'
        (collected (.ofText "B.java" memberCall) (Java.treeOf memberCall)) ∧
      same "p.A" "A" = true := by
  obtain ⟨hnames, hdeclarations, hpackage⟩ :
      (∀ d ∈ javaDeclarations (.ofText "A.java" memberType) (Java.treeOf memberType),
        d.2.isTypeDeclaration = true →
          isTypeName ((Java.Source.ofText "A.java" memberType).nameOf d.2) = true) ∧
      ("p.A", true) ∈ (javaDeclarations (.ofText "A.java" memberType) (Java.treeOf memberType)).map
        (fun d => (d.1, d.2.isTypeDeclaration)) ∧
      (unitOfTree (.ofText "A.java" memberType) (Java.treeOf memberType)).toOption.map (·.package) =
        some "p" := by
    decide +kernel
  obtain ⟨himports, hdeclared⟩ :
      (unitOfTree (.ofText "B.java" memberCall) (Java.treeOf memberCall)).toOption.map
        (·.imports.keys) = some [] ∧
      ∀ d ∈ javaDeclarations (.ofText "B.java" memberCall) (Java.treeOf memberCall),
        d.2.isTypeDeclaration = true →
          (Java.Source.ofText "B.java" memberCall).nameOf d.2 ≠ firstComponent "A" := by
    decide +kernel
  obtain ⟨⟨q, t⟩, hq, hqt⟩ := List.mem_map.1 hdeclarations
  obtain ⟨rfl, ht⟩ := Prod.mk.inj hqt
  cases hread : unitOfTree (.ofText "A.java" memberType) (Java.treeOf memberType) with
  | error f =>
    rw [hread] at hpackage
    cases hpackage
  | ok u =>
    cases hread' : unitOfTree (.ofText "B.java" memberCall) (Java.treeOf memberCall) with
    | error f =>
      rw [hread'] at himports
      cases himports
    | ok u' =>
      rw [hread] at hpackage
      rw [hread'] at himports
      have hp : u.package = "p" := Option.some.inj hpackage
      have hi : u'.imports.keys = [] := Option.some.inj himports
      have hseen : SeenFrom u "p.A" "A" u'
          (collected (.ofText "B.java" memberCall) (Java.treeOf memberCall)) := by
        refine references_across_units hread hread' hnames hq ht (by rw [hp]; rfl) ?_ hdeclared
          (by decide)
        rw [hi]
        exact List.not_mem_nil
      exact ⟨u, u', rfl, rfl, hseen, hseen.same_iff.2 (.inr rfl)⟩

/-- Whether the calls in a unit are resolved in the graph of two units, with the types that they are
made on, and the number of calls that are found for each method of the other unit. -/
def callsAcross (text text' : String) : Option (List (Option String × Bool) × List Nat) := do
  let u ← (unitOfTree (.ofText "A.java" text) (Java.treeOf text)).toOption
  let u' ← (unitOfTree (.ofText "B.java" text') (Java.treeOf text')).toOption
  let g := (empty.replaceUnit u).replaceUnit u'
  return (u'.calls.values.flatten.map fun e => (calledOn? e, (g.resolve (some u'.path) e).isSome),
    u.methods.map fun m => (g.invokers m.signature).length)

example : callsAcross memberType memberCall = some ([(some "A", true)], [1]) := by
  decide +kernel

/-- A nested type of a package. -/
def nestedType : String :=
  "package p; class A \x7b static class I \x7b void f() \x7b \x7d \x7d \x7d"

/-- A call on that type. -/
def nestedCall : String :=
  "package p; class B \x7b void g(A.I x) \x7b x.f(); \x7d \x7d"

/-- **A call on a nested type of the same package is not resolved**, and not found from the method
that it calls. -/
theorem nested_reference_not_found :
    callsAcross nestedType nestedCall = some ([(some "A.I", false)], [0]) := by
  decide +kernel

end CallGraph

end TaintFlow
