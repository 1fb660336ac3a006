import TaintFlow.Proofs.CallGraph.Invokers
import TaintFlow.Proofs.CallGraph.Lookup

/-!
# Resolving a call and looking for callers agree

`CallGraph.resolve` leads from a call to the method it calls, by a search through the units that
takes the first fit.  `CallGraph.invokers` leads from a method to its calls, by the index.  The two
are inverse to each other as far as a search for the first fit can be.

* `exists_resolve` : a call on a known type is resolved wherever a method of some unit fits it.
* `resolve_agrees_with_invokers` : after any changes, a call that is resolved to a method is among
  the calls of that method, and a call of a declared method is resolved.
-/

namespace TaintFlow

open TaintFlow.Code TaintFlow.Types

namespace CallGraph

/-- The type on which a call calls its method, when it is known. -/
def calledOn? (call : Expr) : Option String :=
  (Site.ofExpr? call).bind (·.declaringType)

/-- The unit declares a method with the signature. -/
def Declares (g : CallGraph) (unit : String) (s : Signature) : Prop :=
  ∃ m ∈ g.methods unit, m.signature = s

theorem calls?_iff {s : Signature} {call : Expr} :
    calls? s call = true ↔ ∃ site, Site.ofExpr? call = some site ∧ signatureFits s site = true :=
  Option.any_eq_true _ _

/-! ### The first fit in a unit -/

theorem exists_findMethod {site : Site} {methods : Table Signature Entry}
    {q : Signature × Entry} (hq : q ∈ methods.entries) (hfits : signatureFits q.1 site = true) :
    ∃ m, findMethod site methods = some m := by
  have hsome : (methods.entries.find? fun entry => signatureFits entry.1 site).isSome = true :=
    List.find?_isSome.2 ⟨q, hq, hfits⟩
  obtain ⟨first, hfirst⟩ := Option.isSome_iff_exists.1 hsome
  exact ⟨first.2.method, by rw [findMethod, hfirst]; rfl⟩

/-! ### The search through the units -/

section

variable {g : CallGraph} {call : Expr} {site : Site}

theorem mem_methods_iff {unit : String} {m : Method} :
    m ∈ g.methods unit ↔
      ∃ methods, g.units.get? unit = some methods ∧ ∃ q ∈ methods.entries, q.2.method = m := by
  rw [methods, Table.getD]
  cases g.units.get? unit with
  | none => simp [Table.values]
  | some methods => simp [Table.values]

theorem mem_calls_iff {unit : String} {c : Signature} :
    call ∈ g.calls unit c ↔ ∃ methods entry, g.units.get? unit = some methods ∧
      methods.get? c = some entry ∧ call ∈ entry.calls := by
  rw [calls, Table.getD]
  cases g.units.get? unit with
  | none => simp [Table.get?]
  | some methods => cases h : methods.get? c <;> simp [h]

/-- The unit of the call comes first. -/
theorem resolve_own (hsite : Site.ofExpr? call = some site) (htype : site.declaringType ≠ none)
    {unit : String} {methods : Table Signature Entry} (hunit : g.units.get? unit = some methods)
    {m : Method} (hfind : findMethod site methods = some m) :
    g.resolve (some unit) call = some m := by
  rw [resolve, hsite, Option.bind_some, if_neg (by simpa using htype), Option.bind_some, hunit,
    Option.bind_some, hfind]
  rfl

/-- **A call on a known type is resolved** when a method of some unit fits it, from whatever unit it
is looked at. -/
theorem exists_resolve (hsite : Site.ofExpr? call = some site)
    (htype : site.declaringType ≠ none) {path : String} {methods : Table Signature Entry}
    (hpath : g.units.get? path = some methods) {m : Method}
    (hfind : findMethod site methods = some m) (unit : Option String) :
    ∃ d, g.resolve unit call = some d := by
  by_cases hunit : some path = unit
  · exact ⟨m, hunit ▸ resolve_own hsite htype hpath hfind⟩
  · -- the unit is among the others, so the search comes to an end at it or before
    have hothers : ((g.units.entries.filter fun entry => some entry.1 ≠ unit).findSome? fun entry =>
        findMethod site entry.2).isSome = true := by
      rw [List.findSome?_isSome_iff]
      refine ⟨(path, methods), List.mem_filter.2 ⟨Table.mem_entries_of_get? hpath, ?_⟩, ?_⟩
      · exact decide_eq_true hunit
      · rw [hfind]; rfl
    refine Option.isSome_iff_exists.1 ?_
    rw [resolve, hsite, Option.bind_some, if_neg (by simpa using htype),
      Option.orElse_eq_orElse, Option.orElse_eq_or, Option.isSome_or, hothers, Bool.or_true]

end

/-! ### After any changes -/

namespace Consistent

variable {g : CallGraph} (hg : g.Consistent)

include hg

/-- Methods are kept under their own signatures. -/
theorem signature_of_mem {p : String × Table Signature Entry} (hp : p ∈ g.units.entries)
    {q : Signature × Entry} (hq : q ∈ p.2.entries) : q.2.method.signature = q.1 :=
  (hg.sound p hp q hq).named

/-- A call of a method of the graph is resolved to a method that fits it. -/
theorem calls?_of_resolve {unit : Option String} {call : Expr} {d : Method}
    (h : g.resolve unit call = some d) : calls? d.signature call = true := by
  obtain ⟨site, hsite, p, hp, q, hq, hfits, rfl⟩ := exists_of_resolve h
  rw [hg.signature_of_mem hp hq]
  exact calls?_iff.2 ⟨site, hsite, hfits⟩

/-- A signature that a unit declares leads to a method of the unit, for every call that fits. -/
theorem exists_findMethod_of_declares {unit : String} {s : Signature} (h : g.Declares unit s)
    {site : Site} (hfits : signatureFits s site = true) :
    ∃ methods m, g.units.get? unit = some methods ∧ findMethod site methods = some m := by
  obtain ⟨m, hm, rfl⟩ := h
  obtain ⟨methods, hunit, q, hq, rfl⟩ := mem_methods_iff.1 hm
  rw [hg.signature_of_mem (Table.mem_entries_of_get? hunit) hq] at hfits
  obtain ⟨first, hfirst⟩ := exists_findMethod hq hfits
  exact ⟨methods, first, hunit, hfirst⟩

/-- A call in the body of a method is found among the calls of every signature that it fits, by a
caller with the signature of that method. -/
theorem exists_invoker {unit : String} {c s : Signature} {call : Expr}
    (hcall : call ∈ g.calls unit c) (hfits : calls? s call = true) :
    ∃ caller, (caller, call) ∈ g.invokers s ∧ caller.signature = c := by
  obtain ⟨methods, entry, hunit, hentry, hcall⟩ := mem_calls_iff.1 hcall
  have hnamed : entry.method.signature = c :=
    hg.signature_of_mem (Table.mem_entries_of_get? hunit) (Table.mem_entries_of_get? hentry)
  -- the scan comes by the method, and the index finds what the scan finds
  have hscan : (entry.method, call) ∈ g.scan s :=
    List.mem_flatMap.2 ⟨methods, Table.mem_values_of_get? hunit,
      List.mem_flatMap.2 ⟨entry, Table.mem_values_of_get? hentry,
        List.mem_map.2 ⟨call, List.mem_filter.2 ⟨hcall, hfits⟩, rfl⟩⟩⟩
  have hinvokers := (invokers_perm_scan hg s).symm.subset (List.mem_map_of_mem hscan)
  obtain ⟨⟨caller, e⟩, hinvoker, heq⟩ := List.mem_map.1 hinvokers
  obtain ⟨hsignature, rfl⟩ := Prod.mk.inj heq
  exact ⟨caller, hinvoker, hsignature.trans hnamed⟩

end Consistent

/-- Going through the calls of the methods of a unit is going through its entries. -/
theorem flatMap_calls {β : Type} {g : CallGraph} (hg : g.Consistent) (hkeyed : g.Keyed)
    (unit : String) (f : Expr → List β) :
    ((g.methods unit).flatMap fun m => (g.calls unit m.signature).flatMap f) =
      (g.units.getD unit {}).values.flatMap fun entry => entry.calls.flatMap f := by
  rw [methods, List.flatMap_map, Table.values, List.flatMap_map, List.flatMap_map]
  refine List.flatMap_congr fun q hq => ?_
  cases hunit : g.units.get? unit with
  | none => rw [Table.getD, hunit] at hq; cases hq
  | some methods =>
    rw [Table.getD_of_get? hunit] at hq
    have hp := Table.mem_entries_of_get? hunit
    rw [calls, Table.getD_of_get? hunit, hg.signature_of_mem hp hq,
      Table.get?_of_mem_entries (hkeyed.methods _ hp) hq]

/-- A method to which a call is resolved is declared in some unit. -/
theorem Keyed.exists_mem_methods {g : CallGraph} (hg : g.Keyed) {unit : Option String} {call : Expr}
    {d : Method} (h : g.resolve unit call = some d) : ∃ path, d ∈ g.methods path := by
  obtain ⟨-, -, p, hp, q, hq, -, rfl⟩ := exists_of_resolve h
  exact ⟨p.1, mem_methods_iff.2 ⟨p.2, Table.get?_of_mem_entries hg.units hp, q, hq, rfl⟩⟩

/-- **Resolving a call and looking for callers agree**, after any changes.  When a call in the body
of a method is resolved, it is among the calls of what it is resolved to, by a caller with the
signature of that method.  When a call is among the calls of a signature that some unit declares and
the type it is made on is known, it is resolved from every unit: to a method of the unit itself if
one fits, and to a method with that very signature if no other signature that is declared fits. -/
theorem resolve_agrees_with_invokers (changes : List Change) :
    (∀ path c call, call ∈ (build changes).calls path c →
      ∀ unit d, (build changes).resolve unit call = some d →
        ∃ caller, (caller, call) ∈ (build changes).invokers d.signature ∧ caller.signature = c) ∧
    ∀ s caller call, (caller, call) ∈ (build changes).invokers s →
      (∃ path, (build changes).Declares path s) → (calledOn? call).isSome = true →
        ∀ unit, ∃ d, (build changes).resolve unit call = some d ∧
          (∃ path, d ∈ (build changes).methods path) ∧ calls? d.signature call = true ∧
          (∀ path, unit = some path →
            (∃ s', (build changes).Declares path s' ∧ calls? s' call = true) →
              d ∈ (build changes).methods path) ∧
          ((∀ path s', (build changes).Declares path s' → calls? s' call = true → s' = s) →
            d.signature = s) := by
  have hg := consistent_build changes
  have hkeyed := keyed_build changes
  generalize build changes = g at hg hkeyed
  refine ⟨fun path c call hcall unit d h => hg.exists_invoker hcall (hg.calls?_of_resolve h), ?_⟩
  rintro s caller call hinvoker ⟨path, hdeclares⟩ hknown unit
  obtain ⟨site, hsite, hfits⟩ := calls?_iff.1 (calls?_of_mem_invokers hg hinvoker)
  have htype : site.declaringType ≠ none := by
    rw [calledOn?, hsite, Option.bind_some] at hknown
    exact Option.isSome_iff_ne_none.1 hknown
  obtain ⟨methods, m, hpath, hfind⟩ := hg.exists_findMethod_of_declares hdeclares hfits
  obtain ⟨d, hd⟩ := exists_resolve hsite htype hpath hfind unit
  have hcalls := hg.calls?_of_resolve hd
  obtain ⟨home, hhome⟩ := hkeyed.exists_mem_methods hd
  refine ⟨d, hd, ⟨home, hhome⟩, hcalls, ?_, fun honly => honly home _ ⟨d, hhome, rfl⟩ hcalls⟩
  rintro own rfl ⟨s', hown, hfits'⟩
  -- the first fit in the unit of the call is what the search ends with
  obtain ⟨site', hsite', hfits'⟩ := calls?_iff.1 hfits'
  obtain rfl : site' = site := Option.some.inj (hsite'.symm.trans hsite)
  obtain ⟨methods', first, hunit, hfirst⟩ := hg.exists_findMethod_of_declares hown hfits'
  obtain rfl : first = d := Option.some.inj ((resolve_own hsite htype hunit hfirst).symm.trans hd)
  obtain ⟨q, hq, -, rfl⟩ := exists_of_findMethod hfirst
  exact mem_methods_iff.2 ⟨methods', hunit, q, hq, rfl⟩

/-- A call of a method of type `T`. -/
def relayCall (path method : String) : Expr :=
  .call ⟨method ++ "()", path, 2, 0⟩ method none [] (some "T") none

/-- A source with one method of type `T`, which calls another one of that type. -/
def relay (path method next : String) : SourceUnit where
  path := path
  methods := [⟨⟨"T", method, []⟩, ⟨path, 1, 0⟩, [], none, none, false⟩]
  calls := ⟨[(⟨"T", method, []⟩, [relayCall path next])]⟩

theorem callsOnly_relay (path method next : String) : CallsOnly (relay path method next) := by
  simp [CallsOnly, relay, relayCall, Table.values, Expr.isCall]

/-- Two units whose methods call each other. -/
def relays : List Change :=
  [.replaceUnit (relay "A.java" "run" "stop") (callsOnly_relay _ _ _),
   .replaceUnit (relay "B.java" "stop" "run") (callsOnly_relay _ _ _)]

/-- The call in the first unit is resolved to the method of the second one, whose only call it
is. -/
theorem resolve_relays :
    ∃ d, (build relays).resolve (some "A.java") (relayCall "A.java" "stop") = some d ∧
      d.signature = ⟨"T", "stop", []⟩ ∧ ∃ caller, caller.signature = ⟨"T", "run", []⟩ ∧
        (caller, relayCall "A.java" "stop") ∈ (build relays).invokers d.signature := by
  obtain ⟨hforward, hback⟩ := resolve_agrees_with_invokers relays
  have hdeclares : (build relays).Declares "B.java" ⟨"T", "stop", []⟩ := ⟨_, .head _, rfl⟩
  have honly : ∀ path s, (build relays).Declares path s →
      calls? s (relayCall "A.java" "stop") = true → s = ⟨"T", "stop", []⟩ := by
    rintro path s ⟨m, hm, rfl⟩ hcalls
    obtain ⟨methods, hpath, q, hq, rfl⟩ := mem_methods_iff.1 hm
    rcases Table.mem_entries_of_get? hpath with _ | ⟨_, _ | ⟨_, ⟨⟩⟩⟩
    · rcases hq with _ | ⟨_, ⟨⟩⟩
      cases hcalls
    · rcases hq with _ | ⟨_, ⟨⟩⟩
      rfl
  obtain ⟨d, hd, -, -, -, hsignature⟩ := hback ⟨"T", "stop", []⟩ _ (relayCall "A.java" "stop")
    (.head _) ⟨"B.java", hdeclares⟩ rfl (some "A.java")
  obtain ⟨caller, hcaller, hrun⟩ := hforward "A.java" ⟨"T", "run", []⟩ _ (.head _) _ d hd
  exact ⟨d, hd, hsignature honly, caller, hrun, hcaller⟩

end CallGraph

end TaintFlow
