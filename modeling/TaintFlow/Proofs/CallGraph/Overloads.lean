import TaintFlow.Proofs.CallGraph.Resolution
import TaintFlow.Proofs.Java.CallTyping
import TaintFlow.Proofs.Java.Unit

/-!
# Overloads

A call is typed and resolved in different ways.  Its type is the return type of the last method of
the unit with the type, the name and the number of parameters of the call, whatever the arguments
are.  It is resolved to the first method that fits, and whether a method fits depends on the types of
the arguments.  The two agree where the overloads have one return type.

* `findMethod_methodTable` : in its own unit a call finds the first method that fits.
* `calls_typed_by_last_overload` : what a call is typed by, and when that is what it is resolved to.
* `typed_by_other_overload` : a call that is typed by one overload and resolved to another.
-/

namespace TaintFlow

open TaintFlow.Code TaintFlow.Types

namespace CallGraph

/-! ### The first fit -/

theorem findMethod_declare (site : Site) (m : Method) (t : Table Signature Entry) :
    findMethod site (declare m t) =
      (findMethod site t).or (if signatureFits m.signature site then some m else none) := by
  unfold declare
  split
  · rename_i hcontains
    -- a method that is not added has a signature that is found already
    split
    · rename_i hfits
      obtain ⟨q, hq, hkey⟩ := List.mem_map.1 (Table.contains_iff.1 hcontains)
      obtain ⟨m', hm'⟩ := exists_findMethod hq (hkey ▸ hfits)
      rw [hm', Option.some_or]
    · rw [Option.or_none]
  · rename_i hcontains
    rw [findMethod, findMethod, Table.insert_of_not_mem (mt Table.contains_iff.2 hcontains),
      List.find?_append, Option.map_or]
    refine congrArg (Option.or _) ?_
    by_cases hfits : signatureFits m.signature site = true <;> simp [hfits]

theorem findMethod_record (site : Site) (m : Method) (call : Expr) (t : Table Signature Entry) :
    findMethod site (record m call t) = findMethod site (declare m t) := by
  unfold record
  rcases Table.update_entries (declare m t) m.signature ⟨m, []⟩
      (fun entry => { entry with calls := entry.calls ++ [call] }) with
    ⟨hnew, -⟩ | ⟨l, v, l', he, -, he'⟩
  · refine absurd ?_ hnew
    unfold declare
    split
    · rename_i hcontains
      exact Table.contains_iff.1 hcontains
    · exact Table.mem_keys_insert.2 (.inr rfl)
  · rw [findMethod, findMethod, he, he', List.find?_append, List.find?_append, List.find?_cons,
      List.find?_cons]
    cases signatureFits m.signature site with
    | false => rfl
    | true =>
      cases l.find? fun entry => signatureFits entry.1 site <;> rfl

/-- Of the methods of a unit a call finds the first that fits. -/
theorem findMethod_methodTable (site : Site) (u : SourceUnit) :
    findMethod site (methodTable u) = u.methods.find? fun m => signatureFits m.signature site := by
  -- adding a method with its calls brings the method, unless one that fits was there before
  have hadd : ∀ (m : Method) (calls : List Expr) (t : Table Signature Entry),
      findMethod site (calls.foldl (fun t call => record m call t) (declare m t)) =
        (findMethod site t).or (if signatureFits m.signature site then some m else none) := by
    intro m calls t
    refine List.foldlRecOn (motive := fun t' => findMethod site t' =
      (findMethod site t).or (if signatureFits m.signature site then some m else none)) calls _
      (findMethod_declare site m t) fun t' ht' call _ => ?_
    rw [findMethod_record, findMethod_declare, ht', Option.or_assoc, Option.or_self]
  have hall : ∀ (ms : List Method) (t : Table Signature Entry),
      findMethod site (ms.foldl (fun t m => (u.calls.getD m.signature []).foldl
        (fun t call => record m call t) (declare m t)) t) =
        (findMethod site t).or (ms.find? fun m => signatureFits m.signature site) := by
    intro ms
    induction ms with
    | nil =>
      intro t
      rw [List.foldl_nil, List.find?_nil, Option.or_none]
    | cons m ms ih =>
      intro t
      rw [List.foldl_cons, ih, hadd, Option.or_assoc, List.find?_cons]
      cases signatureFits m.signature site <;> rfl
  rw [methodTable, hall]
  rfl

/-- A call that is resolved to a method of its own unit is resolved to the first one that fits. -/
theorem find?_of_resolve {g : CallGraph} (hg : g.Consistent) {u : SourceUnit}
    (hunit : g.units.get? u.path = some (methodTable u)) {call : Expr} {m : Method}
    (hm : m ∈ u.methods) (hresolve : g.resolve (some u.path) call = some m) :
    (u.methods.find? fun d => calls? d.signature call) = some m := by
  obtain ⟨site, hsite, hfits⟩ := calls?_iff.1 (hg.calls?_of_resolve hresolve)
  have hcalls : ∀ s, calls? s call = signatureFits s site := by
    intro s
    rw [calls?, hsite]
    rfl
  have htype : site.declaringType ≠ none := by
    intro hnone
    rw [resolve, hsite, Option.bind_some, if_pos (by rw [hnone]; rfl)] at hresolve
    cases hresolve
  simp only [hcalls]
  have hsome : (u.methods.find? fun d => signatureFits d.signature site).isSome = true :=
    List.find?_isSome.2 ⟨m, hm, hfits⟩
  obtain ⟨first, hfirst⟩ := Option.isSome_iff_exists.1 hsome
  have hown := resolve_own hsite htype hunit ((findMethod_methodTable site u).trans hfirst)
  rw [hfirst, ← hown, hresolve]

/-- In the graph of one unit, the first method that fits is all there is to find. -/
theorem resolve_single (u : SourceUnit) {call : Expr} (htype : calledOn? call ≠ none) :
    (empty.replaceUnit u).resolve (some u.path) call =
      u.methods.find? fun d => calls? d.signature call := by
  obtain ⟨type, htype⟩ := Option.ne_none_iff_exists'.1 htype
  obtain ⟨site, hsite, hdeclaring⟩ := Option.bind_eq_some_iff.1 htype
  have hunits : (empty.replaceUnit u).units = ⟨[(u.path, methodTable u)]⟩ := replaceUnit_units ..
  have hcalls : (fun d : Method => calls? d.signature call) =
      fun d => signatureFits d.signature site := by
    funext d
    rw [calls?, hsite]
    rfl
  rw [resolve, hsite, hunits, hcalls, ← findMethod_methodTable]
  simp [hdeclaring, Table.get?]

/-! ### Types and targets of calls -/

theorem callsOnly_unitOfTree {S : Java.Source} {root : Java.Tree} {u : SourceUnit}
    (hread : Java.unitOfTree S root = .ok u) : CallsOnly u :=
  fun es hes e he => ((Java.grounded_unitOfTree hread).2.calls es hes e he).isCall

/-- **How a call is typed and how it is resolved**, for every call that stands in a unit.  Its type
is the last of the return types that are declared for its name and number of arguments in the type it
is made on; these are the return types of the overloads, if the unit names its types alike in both
passes.  In every graph that holds the unit, if the call is resolved to a method of the unit, this is
the first one that fits.  It returns the type of the call if all overloads return the same as it. -/
theorem calls_typed_by_last_overload {S : Java.Source} {root : Java.Tree} {u : SourceUnit}
    (hread : Java.unitOfTree S root = .ok u) {o : Origin} {name : String} {receiver : Option Expr}
    {args : List Expr} {type result : Option String}
    (hcall : u.Holds (.call o name receiver args type result)) :
    result = (type.bind fun q => (Java.returnTypes S root (q, name, args.length)).getLast?.join) ∧
      (Java.readDeclarations S root = Java.javaDeclarations S root → ∀ key,
        Java.returnTypes S root key = (Java.overloads u.methods key).map (·.returnType)) ∧
      ∀ changes, (build changes).units.get? u.path = some (methodTable u) →
        ∀ m ∈ u.methods, (build changes).resolve (some u.path)
            (.call o name receiver args type result) = some m →
          (u.methods.find? fun d =>
            calls? d.signature (.call o name receiver args type result)) = some m ∧
          ((∀ q ∈ type, ∀ r ∈ Java.returnTypes S root (q, name, args.length), r = m.returnType) →
            ∀ t, result = some t → m.returnType = some t) := by
  have htyped := (Java.typed_of_holds hread hcall).1
  obtain ⟨s, hrun, rfl⟩ := Java.exists_state_of_unitOfTree hread
  rw [Java.returnType?_collected] at htyped
  refine ⟨htyped, Java.returnTypes_eq hrun, fun changes hunit m hm hresolve => ?_⟩
  refine ⟨find?_of_resolve (consistent_build changes) hunit hm hresolve, fun hsame t ht => ?_⟩
  -- the type of the call is the return type of one of the overloads
  rw [ht] at htyped
  obtain ⟨q, hq, hlast⟩ := Option.bind_eq_some_iff.1 htyped.symm
  exact (hsame q hq _ (List.mem_of_getLast? (Option.join_eq_some_iff.1 hlast))).symm

/-- The calls of a name that a unit lists: the type they are made on, the number of arguments, their
own type, and the return type of the method to which they are resolved. -/
def callTypes (u : SourceUnit) (name : String) :
    List (Option String × Nat × Option String × Option (Option String)) :=
  u.calls.values.flatten.filterMap fun e =>
    match e with
    | .call _ n _ args type result =>
      if n = name then
        some (type, args.length, result,
          ((empty.replaceUnit u).resolve (some u.path) e).map (·.returnType))
      else none
    | _ => none

/-- A unit with one method of each name. -/
def plainNames : String :=
  "class A \x7b int f(int x) \x7b return x; \x7d void m() \x7b exec(f(1)); \x7d \x7d"

/-- The call of `f` has the type that `f` returns, in the graph of the unit. -/
theorem call_typed_as_resolved :
    ∃ u m o receiver args, Java.unitOfTree (.ofText "A.java" plainNames) (Java.treeOf plainNames) = .ok u ∧
      u.Holds (.call o "f" receiver args (some "A") (some "int")) ∧
      (empty.replaceUnit u).resolve (some u.path)
        (.call o "f" receiver args (some "A") (some "int")) = some m ∧
      m.returnType = some "int" := by
  have hviews : (Java.unitOfTree (.ofText "A.java" plainNames) (Java.treeOf plainNames)).toOption.map
      (callTypes · "f") = some [(some "A", 1, some "int", some (some "int"))] := by
    decide +kernel
  have hreturns : ∀ r ∈ Java.returnTypes (.ofText "A.java" plainNames) (Java.treeOf plainNames)
      ("A", "f", 1), r = some "int" := by
    decide +kernel
  cases hread : Java.unitOfTree (.ofText "A.java" plainNames) (Java.treeOf plainNames) with
  | error f =>
    rw [hread] at hviews
    cases hviews
  | ok u =>
    rw [hread] at hviews
    have hcalls : callTypes u "f" = [(some "A", 1, some "int", some (some "int"))] :=
      Option.some.inj hviews
    have hmem : (some "A", 1, some "int", some (some "int")) ∈ callTypes u "f" := by
      rw [hcalls]
      exact List.mem_singleton_self _
    obtain ⟨e, he, heq⟩ := List.mem_filterMap.1 hmem
    cases e with
    | call o name receiver args type result =>
      simp only at heq
      split at heq
      · rename_i hname
        obtain rfl : name = "f" := hname
        simp only [Option.some.injEq, Prod.mk.injEq] at heq
        obtain ⟨rfl, hlength, rfl, hresolve⟩ := heq
        obtain ⟨m, hresolve, hreturn⟩ := Option.map_eq_some_iff.1 hresolve
        have hcall : u.Holds (.call o "f" receiver args (some "A") (some "int")) :=
          ⟨_, List.mem_append_right _ (List.mem_append_left _ he), .refl⟩
        have hm : m ∈ u.methods := by
          rw [resolve_single u (by simp [calledOn?, Site.ofExpr?])] at hresolve
          exact List.mem_of_find?_eq_some hresolve
        have hunit : (build [.replaceUnit u (callsOnly_unitOfTree hread)]).units.get? u.path =
            some (methodTable u) := by
          change (empty.replaceUnit u).units.get? u.path = _
          rw [replaceUnit_units, Table.get?_insert, if_pos rfl]
        refine ⟨u, m, o, receiver, args, rfl, hcall, hresolve, ?_⟩
        refine ((calls_typed_by_last_overload hread hcall).2.2 _ hunit m hm hresolve).2 ?_ _ rfl
        rintro q ⟨⟩ r hr
        rw [hlength] at hr
        rw [hreturns r hr, hreturn]
      · cases heq
    | _ => cases heq

/-- A unit with two methods that differ in the types of their parameters. -/
def overloadedNames : String :=
  "class A \x7b int f(int x) \x7b return x; \x7d String f(String s) \x7b return s; \x7d void m() \x7b exec(f(1)); \x7d \x7d"

/-- **A call that is typed by one overload and resolved to another**: `f(1)` calls the first method,
and is typed by the last one. -/
theorem typed_by_other_overload :
    (Java.unitOfTree (.ofText "A.java" overloadedNames) (Java.treeOf overloadedNames)).toOption.map
        (callTypes · "f") = some [(some "A", 1, some "java.lang.String", some (some "int"))] := by
  decide +kernel

end CallGraph

end TaintFlow
