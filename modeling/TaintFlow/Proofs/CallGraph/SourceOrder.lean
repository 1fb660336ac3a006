import TaintFlow.Proofs.CallGraph.Resolution
import Mathlib.Data.List.Induction

/-!
# Lookups in graphs of the same sources

The order in which sources come into a graph shows in the order of its tables: in the order of the
callers of a method, and in which unit is searched first for the method of a call.  The values of
variables do not depend on it, nor does the method of a call that only one declaration fits.

* `isSum_ofSources` : a graph of sources at different paths is the sum of the sources.
* `valueOf_of_perm` : in another order, names have the same values.
* `invokers_of_perm` : methods have the same callers, in another order.
* `resolve_of_perm` : calls that match one declaration at most find the same method.
-/

namespace TaintFlow

open TaintFlow.Code TaintFlow.Types

namespace CallGraph

/-- The graph of some sources, which come into it one after the other. -/
def ofSources (us : List SourceUnit) : CallGraph :=
  us.foldl replaceUnit empty

/-- Among all that the sources declare, only one signature of one unit fits the call, if any. -/
def MatchesOnce (us : List SourceUnit) (call : Expr) : Prop :=
  ∀ u ∈ us, ∀ m ∈ u.methods, ∀ u' ∈ us, ∀ m' ∈ u'.methods,
    calls? m.signature call = true → calls? m'.signature call = true →
      u.path = u'.path ∧ m.signature = m'.signature

/-- Sources that a graph keeps apart: their paths differ, the variables of each are its own, and no
source declares a signature twice. -/
structure Separate (us : List SourceUnit) : Prop where
  paths : (us.map (·.path)).Nodup
  owns : ∀ u ∈ us, OwnsVariables u
  distinct : ∀ u ∈ us, Distinct u

theorem Separate.perm {us us' : List SourceUnit} (h : Separate us) (hperm : us.Perm us') :
    Separate us' where
  paths := (hperm.map _).nodup_iff.1 h.paths
  owns u hu := h.owns u (hperm.mem_iff.2 hu)
  distinct u hu := h.distinct u (hperm.mem_iff.2 hu)

theorem MatchesOnce.perm {us us' : List SourceUnit} {call : Expr} (h : MatchesOnce us call)
    (hperm : us.Perm us') : MatchesOnce us' call :=
  fun u hu m hm u' hu' m' hm' =>
    h u (hperm.mem_iff.2 hu) m hm u' (hperm.mem_iff.2 hu') m' hm'

/-! ### The tables of a graph of sources -/

theorem tidy_ofSources (us : List SourceUnit) : (ofSources us).Tidy :=
  List.foldlRecOn us replaceUnit tidy_empty fun _ hg u _ => hg.replaceUnit u

/-- **A graph of sources at different paths** is the sum of the sources, in their order. -/
theorem isSum_ofSources {us : List SourceUnit} (hpaths : (us.map (·.path)).Nodup)
    (howns : ∀ u ∈ us, OwnsVariables u) : IsSum (ofSources us) us := by
  induction us using List.reverseRecOn with
  | nil => exact isSum_empty
  | append_singleton us u ih =>
    rw [List.map_append, List.nodup_append] at hpaths
    obtain ⟨hnodup, -, hnew⟩ := hpaths
    have howns' : ∀ v ∈ us, OwnsVariables v := fun v hv => howns v (List.mem_append_left _ hv)
    have hsum := (ih hnodup howns').replaceUnit (tidy_ofSources us).listed hnodup howns'
      (howns u (by simp))
    have hpath : u.path ∉ us.map (·.path) := fun hmem => hnew _ hmem u.path (by simp) rfl
    rw [withLast, without_of_not_mem hpath] at hsum
    rw [ofSources, List.foldl_append]
    exact hsum

theorem nodup_bindings_ofSources (us : List SourceUnit) : (ofSources us).bindings.keys.Nodup := by
  refine List.foldlRecOn (motive := fun g : CallGraph => g.bindings.keys.Nodup) us replaceUnit
    List.nodup_nil fun g hg u _ => ?_
  have hremove : (g.removeUnit u.path).bindings.keys.Nodup := by
    by_cases hpath : u.path ∈ g.units.keys
    · rw [removeUnit_of_contains hpath]
      exact List.foldlRecOn (motive := fun t : Table Binding Expr => t.keys.Nodup) _ _ hg
        fun t ht b _ => Table.nodup_keys_erase ht b
    · rwa [removeUnit_of_not_contains hpath]
  rw [replaceUnit_bindings]
  exact List.foldlRecOn (motive := fun t : Table Binding Expr => t.keys.Nodup) _ _ hremove
    fun t ht entry _ => Table.nodup_keys_insert ht entry.1 entry.2

/-! ### Lookups -/

/-- A call on an unknown type is not resolved. -/
theorem resolve_eq_none (g : CallGraph) {unit : Option String} {call : Expr}
    (h : calledOn? call = none) : g.resolve unit call = none := by
  unfold resolve
  cases hsite : Site.ofExpr? call with
  | none => rfl
  | some site =>
    rw [calledOn?, hsite] at h
    exact if_pos (Option.isNone_iff_eq_none.2 h)

section

variable {us us' : List SourceUnit} (hus : Separate us) (hperm : us.Perm us')

include hus hperm

theorem valueOf_of_perm (n : Name) : (ofSources us).valueOf n = (ofSources us').valueOf n := by
  have hus' := hus.perm hperm
  have hentries : (ofSources us).bindings.entries.Perm (ofSources us').bindings.entries := by
    rw [(isSum_ofSources hus.paths hus.owns).bindings,
      (isSum_ofSources hus'.paths hus'.owns).bindings]
    exact hperm.flatMap_right _
  unfold valueOf
  cases n.binding with
  | none => rfl
  | some b => exact Table.get?_of_perm hentries (nodup_bindings_ofSources us) b

/-- **The callers of a method** are the same, in an order that depends on that of the sources. -/
theorem invokers_of_perm (s : Signature) :
    ((ofSources us).invokers s).Perm ((ofSources us').invokers s) := by
  have hus' := hus.perm hperm
  unfold invokers
  rw [(isSum_ofSources hus.paths hus.owns).index, (isSum_ofSources hus'.paths hus'.owns).index]
  exact ((hperm.flatMap_right _).filter _).map _

omit hperm in
/-- A method to which a call is resolved is one that a source declares, with a signature that fits
the call. -/
theorem exists_source_of_resolve {unit : Option String} {call : Expr} {d : Method}
    (h : (ofSources us).resolve unit call = some d) :
    ∃ u ∈ us, d ∈ u.methods ∧ calls? d.signature call = true := by
  obtain ⟨site, hsite, p, hp, q, hq, hfits, rfl⟩ := exists_of_resolve h
  rw [(isSum_ofSources hus.paths hus.owns).units] at hp
  obtain ⟨u, hu, hp⟩ := List.mem_filterMap.1 hp
  cases hp
  rw [methodTable_of_distinct (hus.distinct u hu)] at hq
  obtain ⟨m, hm, rfl⟩ := List.mem_map.1 hq
  exact ⟨u, hu, hm, calls?_iff.2 ⟨site, hsite, hfits⟩⟩

omit hperm in
/-- A call on a known type is resolved when some source declares a method that fits it. -/
theorem exists_resolve_ofSources {call : Expr} (htype : calledOn? call ≠ none) {u : SourceUnit}
    (hu : u ∈ us) {m : Method} (hm : m ∈ u.methods) (hfits : calls? m.signature call = true)
    (unit : Option String) : ∃ d, (ofSources us).resolve unit call = some d := by
  obtain ⟨site, hsite, hfits⟩ := calls?_iff.1 hfits
  have hget := (isSum_ofSources hus.paths hus.owns).units.get?_eq hus.paths hu
  have hentry : (m.signature, ⟨m, u.calls.getD m.signature []⟩) ∈ (methodTable u).entries := by
    rw [methodTable_of_distinct (hus.distinct u hu)]
    exact List.mem_map.2 ⟨m, hm, rfl⟩
  obtain ⟨first, hfirst⟩ := exists_findMethod hentry hfits
  rw [calledOn?, hsite] at htype
  exact exists_resolve hsite htype hget hfirst unit

theorem resolve_of_resolve {call : Expr} (honce : MatchesOnce us call) {unit : Option String}
    {d : Method} (h : (ofSources us).resolve unit call = some d) :
    (ofSources us').resolve unit call = some d := by
  have htype : calledOn? call ≠ none := by
    intro hnone
    rw [resolve_eq_none _ hnone] at h
    cases h
  obtain ⟨u, hu, hd, hfits⟩ := exists_source_of_resolve hus h
  have hus' := hus.perm hperm
  obtain ⟨d', hd'⟩ := exists_resolve_ofSources hus' htype (hperm.mem_iff.1 hu) hd hfits unit
  -- the method that is found is the only one that fits
  obtain ⟨u', hu', hmem', hfits'⟩ := exists_source_of_resolve hus' hd'
  have hu'' := hperm.mem_iff.2 hu'
  obtain ⟨hpath, hsignature⟩ := honce u hu d hd u' hu'' d' hmem' hfits hfits'
  obtain rfl : u = u' := List.inj_on_of_nodup_map hus.paths hu hu'' hpath
  obtain rfl : d = d' := List.inj_on_of_nodup_map (hus.distinct u hu) hd hmem' hsignature
  exact hd'

/-- **A call that matches one declaration at most** finds the same method, in whatever order the
units are searched. -/
theorem resolve_of_perm {call : Expr} (honce : calledOn? call ≠ none → MatchesOnce us call)
    (unit : Option String) :
    (ofSources us).resolve unit call = (ofSources us').resolve unit call := by
  by_cases htype : calledOn? call = none
  · rw [resolve_eq_none _ htype, resolve_eq_none _ htype]
  · have honce := honce htype
    refine Option.ext fun d => ⟨fun h => resolve_of_resolve hus hperm honce h, fun h => ?_⟩
    exact resolve_of_resolve (hus.perm hperm) hperm.symm (honce.perm hperm) h

end

end CallGraph

end TaintFlow
