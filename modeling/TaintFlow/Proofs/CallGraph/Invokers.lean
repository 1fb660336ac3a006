import TaintFlow.Proofs.CallGraph.Sources

/-!
# The callers that the index finds

`CallGraph.invokers` answers from the index.  `CallGraph.scan` answers the same question without
it, by looking through all methods.  The two agree on every graph that changes can lead to:

* `invokers_perm_scan` : they give the same calls, each as often, with callers of the same
  signatures.
* `calls_stats` : the number of calls in the index is the number of calls of the methods.
* `invokers_eq_scan` : when the graph holds what its sources say, in order, and no source declares a
  signature twice, they give the same callers in the same order.
-/

namespace TaintFlow

open TaintFlow.Code TaintFlow.Types

namespace CallGraph

/-- Every expression that a method of the graph has among its calls. -/
def recordedCalls (g : CallGraph) : List Expr :=
  g.units.values.flatMap fun methods => methods.values.flatMap (·.calls)

/-- Whether an expression is a call of the method with the given signature. -/
def calls? (s : Signature) (call : Expr) : Bool :=
  (Site.ofExpr? call).any (signatureFits s)

/-- Every caller of a method, with the call, found by looking through all methods. -/
def scan (g : CallGraph) (s : Signature) : List (Method × Expr) :=
  g.units.values.flatMap fun methods => methods.values.flatMap fun entry =>
    (entry.calls.filter (calls? s)).map fun call => (entry.method, call)

theorem isSome_ofExpr? {e : Expr} (h : e.isCall = true) : (Site.ofExpr? e).isSome = true := by
  cases e with
  | creation o type args => rfl
  | call o method receiver args rt type => rfl
  | _ => cases h

/-- Only a call with the name and the number of arguments of a signature fits it. -/
theorem key_of_signatureFits {s : Signature} {site : Site} (h : signatureFits s site = true) :
    (site.name, site.arity) = (s.name, s.arity) := by
  simp only [signatureFits, Site.fits, Bool.and_eq_true, beq_iff_eq] at h
  exact Prod.ext h.1.1.1.symm h.1.1.2.symm

/-- What fits a signature stands at its key. -/
theorem filter_key_filter_fits {γ : Type} (site : γ → Site) (s : Signature) (l : List γ) :
    (l.filter fun c => ((site c).name, (site c).arity) = (s.name, s.arity)).filter
        (fun c => signatureFits s (site c)) = l.filter fun c => signatureFits s (site c) := by
  rw [List.filter_filter]
  refine List.filter_congr fun c _ => ?_
  by_cases hf : signatureFits s (site c) = true
  · rw [key_of_signatureFits hf]
    simp
  · simp [hf]

/-- Among items that are made of the calls in a list, those that fit a signature are made of the
calls that do. -/
theorem filterMap_calls {γ δ : Type} {s : Signature} (make : Expr → Site → γ) {p : γ → Bool}
    {view : γ → δ} {w : Expr → δ} (hp : ∀ e site, p (make e site) = signatureFits s site)
    (hv : ∀ e site, view (make e site) = w e) (es : List Expr) :
    ((es.filterMap fun e => (Site.ofExpr? e).map (make e)).filter p).map view =
      (es.filter (calls? s)).map w := by
  induction es with
  | nil => rfl
  | cons e es ih =>
    cases hsite : Site.ofExpr? e with
    | none =>
      have hno : calls? s e = false := by rw [calls?, hsite]; rfl
      rw [List.filterMap_cons_none (by rw [hsite]; rfl), List.filter_cons_of_neg (by simp [hno]),
        ih]
    | some site =>
      have hcalls : calls? s e = signatureFits s site := by rw [calls?, hsite]; rfl
      rw [List.filterMap_cons_some (b := make e site) (by rw [hsite]; rfl)]
      by_cases hf : signatureFits s site = true
      · rw [List.filter_cons_of_pos (by rw [hp, hf]), List.filter_cons_of_pos (by rw [hcalls, hf]),
          List.map_cons, List.map_cons, ih, hv]
      · rw [List.filter_cons_of_neg (by rw [hp]; exact hf),
          List.filter_cons_of_neg (by rw [hcalls]; exact hf), ih]

/-! ### Any changes -/

section

variable {g : CallGraph}

/-- The scan by signatures, put in terms of occurrences. -/
theorem map_scan (hg : g.Consistent) (s : Signature) :
    (g.scan s).map (fun p => (p.1.signature, p.2)) =
      ((occurrences g.units).filter fun o => signatureFits s o.site).map
        fun o => (o.caller, o.call) := by
  simp only [scan, occurrences, occurrencesOf, Table.values, List.flatMap_map, List.map_flatMap,
    List.filter_flatMap]
  refine List.flatMap_congr fun p hp => List.flatMap_congr fun q hq => ?_
  have hcalls : ((occurrencesIn p.1 q.1 q.2.calls).filter fun o => signatureFits s o.site).map
      (fun o => (o.caller, o.call)) = (q.2.calls.filter (calls? s)).map fun e => (q.1, e) :=
    filterMap_calls (Occurrence.mk p.1 q.1) (fun _ _ => rfl) (fun _ _ => rfl) _
  rw [hcalls, List.map_map, ← (hg.sound p hp q hq).named]
  rfl

/-- **The index finds what the scan finds**, up to order. -/
theorem invokers_perm_scan (hg : g.Consistent) (s : Signature) :
    ((g.invokers s).map fun p => (p.1.signature, p.2)).Perm
      ((g.scan s).map fun p => (p.1.signature, p.2)) := by
  have hinvokers : (g.invokers s).map (fun p => (p.1.signature, p.2)) =
      (((g.index.getD (s.name, s.arity) []).map IndexedCall.occurrence).filter
        fun o => signatureFits s o.site).map fun o => (o.caller, o.call) := by
    rw [invokers, List.filter_map, List.map_map, List.map_map]
    rfl
  rw [map_scan hg, hinvokers, ← filter_key_filter_fits Occurrence.site s (occurrences g.units)]
  exact ((hg.agrees _).filter _).map _

/-- The calls of a signature fit it. -/
theorem calls?_of_mem_invokers (hg : g.Consistent) {s : Signature} {invoker : Method × Expr}
    (h : invoker ∈ g.invokers s) : calls? s invoker.2 = true := by
  have hscan := (invokers_perm_scan hg s).subset (List.mem_map_of_mem h)
  obtain ⟨p, hp, heq⟩ := List.mem_map.1 hscan
  obtain ⟨methods, -, hp⟩ := List.mem_flatMap.1 hp
  obtain ⟨entry, -, hp⟩ := List.mem_flatMap.1 hp
  obtain ⟨call, hcall, rfl⟩ := List.mem_map.1 hp
  rw [← (Prod.mk.inj heq).2]
  exact (List.mem_filter.1 hcall).2

theorem map_call_occurrences (hg : g.Consistent) :
    (occurrences g.units).map (·.call) = g.recordedCalls := by
  simp only [occurrences, occurrencesOf, recordedCalls, Table.values, List.flatMap_map,
    List.map_flatMap]
  refine List.flatMap_congr fun p hp => List.flatMap_congr fun q hq => ?_
  have hcalls := (hg.sound p hp q hq).calls
  rw [occurrencesIn, List.map_filterMap]
  refine (List.filterMap_congr fun e he => ?_).trans List.filterMap_some
  obtain ⟨site, hsite⟩ := Option.isSome_iff_exists.1 (isSome_ofExpr? (hcalls e he))
  rw [hsite]
  rfl

/-- **The calls of the index are as many as the calls of the methods.** -/
theorem calls_stats (hg : g.Consistent) : g.stats.calls = g.recordedCalls.length := by
  have h := (Table.flatten_values_perm hg.tidy.nodup hg.agrees).length_eq
  rw [← map_call_occurrences hg, List.length_map, ← h, List.length_map]
  rfl

end

/-! ### Changes of whole units -/

/-- The source declares no signature twice. -/
def Distinct (u : SourceUnit) : Prop :=
  (u.methods.map (·.signature)).Nodup

/-- Recording the calls of a method that has just been declared. -/
theorem foldl_record (m : Method) (es before : List Expr) (methods : Table Signature Entry) :
    es.foldl (fun methods call => record m call methods)
        (methods.insert m.signature ⟨m, before⟩) =
      methods.insert m.signature ⟨m, before ++ es⟩ := by
  induction es generalizing before with
  | nil => rw [List.append_nil]; rfl
  | cons e es ih =>
    have hin : (methods.insert m.signature ⟨m, before⟩).contains m.signature = true := by
      rw [Table.contains, Table.get?_insert, if_pos rfl]
      rfl
    have hdeclare : declare m (methods.insert m.signature ⟨m, before⟩) =
        methods.insert m.signature ⟨m, before⟩ := if_pos hin
    rw [List.foldl_cons, record, hdeclare, Table.update_insert, ih, List.append_assoc]
    rfl

/-- A source that declares no signature twice gives each method the calls that it lists for it. -/
theorem methodTable_of_distinct {u : SourceUnit} (h : Distinct u) :
    (methodTable u).entries =
      u.methods.map fun m => (m.signature, ⟨m, u.calls.getD m.signature []⟩) := by
  -- the methods that are there already have other signatures than those to come
  have key : ∀ (ms : List Method) (t : Table Signature Entry), (ms.map (·.signature)).Nodup →
      (∀ m ∈ ms, m.signature ∉ t.keys) →
      (ms.foldl (fun methods m => (u.calls.getD m.signature []).foldl
        (fun methods call => record m call methods) (declare m methods)) t).entries =
        t.entries ++ ms.map fun m => (m.signature, ⟨m, u.calls.getD m.signature []⟩) := by
    intro ms
    induction ms with
    | nil => intro t _ _; simp
    | cons m ms ih =>
      intro t hn ht
      obtain ⟨hm, hn⟩ := List.nodup_cons.1 hn
      have hnew : m.signature ∉ t.keys := ht m List.mem_cons_self
      have hdeclare : declare m t = t.insert m.signature ⟨m, []⟩ :=
        if_neg (mt Table.contains_iff.1 hnew)
      rw [List.foldl_cons, hdeclare, foldl_record, List.nil_append, ih _ hn,
        Table.insert_of_not_mem hnew, List.append_assoc]
      · rfl
      · intro m' hm'
        rw [Table.keys_insert, if_neg hnew, List.mem_append, List.mem_singleton, not_or]
        exact ⟨ht m' (List.mem_cons_of_mem _ hm'),
          fun he => hm (List.mem_map.2 ⟨m', hm', he⟩)⟩
  exact key u.methods {} h nofun

/-- **The index finds what the scan finds, in the same order**, when the graph holds its sources
one after the other and none of them declares a signature twice. -/
theorem invokers_eq_scan {g : CallGraph} {us : List SourceUnit} (h : Covers g us)
    (hus : ∀ u ∈ us, Distinct u) (s : Signature) : g.invokers s = g.scan s := by
  have hvalues : g.units.values = us.map methodTable := by
    rw [Table.values, h.units]
    simp
  rw [invokers, h.index, scan, hvalues]
  simp only [List.filter_flatMap, List.map_flatMap, List.flatMap_map]
  refine List.flatMap_congr fun u hu => ?_
  have hfits : ((indexedCalls u).filter (·.key = (s.name, s.arity))).filter _ = _ :=
    filter_key_filter_fits IndexedCall.site s (indexedCalls u)
  rw [hfits, indexedCalls, Table.values, methodTable_of_distinct (hus u hu)]
  simp only [List.filter_flatMap, List.map_flatMap, List.flatMap_map, List.map_map]
  refine List.flatMap_congr fun m _ => ?_
  exact filterMap_calls (IndexedCall.mk u.path m) (fun _ _ => rfl) (fun _ _ => rfl) _

/-! ### Histories -/

/-- A change of a call graph; what it records as a call is one. -/
inductive Change where
  | addUnit (unit : String)
  | removeUnit (unit : String)
  | addMethod (unit : String) (method : Method)
  | addCall (unit : String) (caller : Method) (call : Expr) (isCall : call.isCall = true)
  | addBinding (unit : String) (binding : Binding) (value : Expr)
  | replaceUnit (source : SourceUnit) (callsOnly : CallsOnly source)

/-- The graph after a change. -/
def Change.apply (g : CallGraph) : Change → CallGraph
  | addUnit unit => g.addUnit unit
  | removeUnit unit => g.removeUnit unit
  | addMethod unit method => g.addMethod unit method
  | addCall unit caller call _ => g.addCall unit caller call
  | addBinding unit binding value => g.addBinding unit binding value
  | replaceUnit source _ => g.replaceUnit source

/-- The change removes a unit, or replaces it by a source that declares no signature twice. -/
def Change.IsWhole : Change → Prop
  | removeUnit _ => True
  | replaceUnit source _ => Distinct source
  | _ => False

/-- The graph to which changes lead from the empty one. -/
def build (changes : List Change) : CallGraph :=
  changes.foldl Change.apply empty

theorem Consistent.apply {g : CallGraph} (hg : g.Consistent) (c : Change) :
    (c.apply g).Consistent := by
  cases c with
  | addUnit unit => exact hg.addUnit unit
  | removeUnit unit => exact hg.removeUnit unit
  | addMethod unit method => exact hg.addMethod unit method
  | addCall unit caller call isCall => exact hg.addCall unit caller isCall
  | addBinding unit binding value => exact hg.addBinding unit binding value
  | replaceUnit source callsOnly => exact hg.replaceUnit callsOnly

theorem consistent_build (changes : List Change) : (build changes).Consistent :=
  List.foldlRecOn changes Change.apply consistent_empty fun _ hg c _ => hg.apply c

theorem Keyed.apply {g : CallGraph} (hg : g.Keyed) (c : Change) : (c.apply g).Keyed := by
  cases c with
  | addUnit unit => exact hg.addUnit unit
  | removeUnit unit => exact hg.removeUnit unit
  | addMethod unit method => exact hg.addMethod unit method
  | addCall unit caller call _ => exact hg.addCall unit caller call
  | addBinding unit binding value => exact hg.addBinding unit binding value
  | replaceUnit source _ => exact hg.replaceUnit source

theorem keyed_build (changes : List Change) : (build changes).Keyed :=
  List.foldlRecOn changes Change.apply keyed_empty fun _ hg c _ => hg.apply c

theorem exists_covers_build {changes : List Change} (h : ∀ c ∈ changes, c.IsWhole) :
    ∃ us, Covers (build changes) us ∧ ∀ u ∈ us, Distinct u := by
  have step : ∀ (g : CallGraph), (g.Consistent ∧ ∃ us, Covers g us ∧ ∀ u ∈ us, Distinct u) →
      ∀ c ∈ changes, (c.apply g).Consistent ∧ ∃ us, Covers (c.apply g) us ∧
        ∀ u ∈ us, Distinct u := by
    rintro g ⟨hg, us, hus, hd⟩ c hc
    refine ⟨hg.apply c, ?_⟩
    have hwhole := h c hc
    cases c with
    | removeUnit unit =>
      exact ⟨_, hus.removeUnit hg.tidy.listed unit, fun u hu => hd u (List.mem_filter.1 hu).1⟩
    | replaceUnit source callsOnly =>
      refine ⟨_, hus.replaceUnit hg.tidy.listed source, fun u hu => ?_⟩
      rcases List.mem_append.1 hu with hu | hu
      · exact hd u (List.mem_filter.1 hu).1
      · rw [List.mem_singleton.1 hu]
        exact hwhole
    | _ => exact hwhole.elim
  exact (List.foldlRecOn changes Change.apply ⟨consistent_empty, [], covers_empty, nofun⟩ step).2

/-- **The index answers as a scan of all methods does**, after any changes.  It gives the same calls
as often, by callers of the same signatures, and it holds as many calls as the methods do.  When the
graph was only changed by whole units, the callers come in the same order. -/
theorem invokers_agree_with_scan (changes : List Change) :
    (∀ s, (((build changes).invokers s).map fun p => (p.1.signature, p.2)).Perm
      (((build changes).scan s).map fun p => (p.1.signature, p.2))) ∧
    (build changes).stats.calls = (build changes).recordedCalls.length ∧
    ((∀ c ∈ changes, c.IsWhole) → ∀ s, (build changes).invokers s = (build changes).scan s) := by
  have hg := consistent_build changes
  refine ⟨invokers_perm_scan hg, calls_stats hg, fun h s => ?_⟩
  obtain ⟨us, hus, hd⟩ := exists_covers_build h
  exact invokers_eq_scan hus hd s

/-- A source with one method, which calls a method `stop`. -/
def stopper (path : String) : SourceUnit where
  path := path
  methods := [⟨⟨"T", "run", []⟩, ⟨path, 1, 0⟩, [], none, none, false⟩]
  calls := ⟨[(⟨"T", "run", []⟩, [.call ⟨"stop()", path, 2, 0⟩ "stop" none [] none none])]⟩

theorem callsOnly_stopper (path : String) : CallsOnly (stopper path) := by
  simp [CallsOnly, stopper, Table.values, Expr.isCall]

/-- Two units, of which the first is replaced once more. -/
def movedUnit : List Change :=
  ["A.java", "B.java", "A.java"].map fun path =>
    .replaceUnit (stopper path) (callsOnly_stopper path)

/-- The calls of a unit that is replaced come last, in the index as in the scan. -/
theorem invokers_movedUnit :
    (build movedUnit).invokers ⟨"T", "stop", []⟩ = (build movedUnit).scan ⟨"T", "stop", []⟩ ∧
      ((build movedUnit).invokers ⟨"T", "stop", []⟩).map (·.1.unit) = ["B.java", "A.java"] := by
  have hwhole : ∀ c ∈ movedUnit, c.IsWhole := by
    intro c hc
    obtain ⟨path, -, rfl⟩ := List.mem_map.1 hc
    exact List.nodup_singleton _
  exact ⟨(invokers_agree_with_scan movedUnit).2.2 hwhole _, rfl⟩

end CallGraph

end TaintFlow
