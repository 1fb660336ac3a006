import TaintFlow.Proofs.CallGraph.Index

/-!
# A call graph as the sum of its sources

A graph that was only ever changed by whole units is determined by the sources that are left: its
tables hold what each source contributes, source after source.

* `Lists` : a table with at most one entry for each source.
* `Covers` : the methods of the graph, and the calls at each key of the index, are those of the
  sources in order.  Removing a unit drops its source (`Covers.removeUnit`), and replacing one moves
  it to the end (`Covers.replaceUnit`).
* `IsSum` : so are all the tables.  This takes sources whose variables are their own.
* `IsSum.same` : graphs with the same sources are the same, except for the order of the keys in the
  index.
-/

namespace TaintFlow

open TaintFlow.Code TaintFlow.Types

namespace CallGraph

/-- The sources without the one at a path. -/
def without (path : String) (us : List SourceUnit) : List SourceUnit :=
  us.filter (·.path ≠ path)

/-- The sources after one was replaced or added. -/
def withLast (u : SourceUnit) (us : List SourceUnit) : List SourceUnit :=
  without u.path us ++ [u]

theorem not_mem_paths_without (path : String) (us : List SourceUnit) :
    path ∉ (without path us).map (·.path) := by
  intro h
  obtain ⟨u, hu, rfl⟩ := List.mem_map.1 h
  simp [without] at hu

theorem without_of_not_mem {path : String} {us : List SourceUnit}
    (h : path ∉ us.map (·.path)) : without path us = us := by
  refine List.filter_eq_self.2 fun u hu => decide_eq_true ?_
  rintro rfl
  exact h (List.mem_map_of_mem hu)

theorem nodup_without {us : List SourceUnit} (h : (us.map (·.path)).Nodup) (path : String) :
    ((without path us).map (·.path)).Nodup :=
  h.sublist (List.filter_sublist.map _)

theorem nodup_withLast {us : List SourceUnit} (h : (us.map (·.path)).Nodup) (u : SourceUnit) :
    ((withLast u us).map (·.path)).Nodup := by
  rw [withLast, List.map_append]
  refine (nodup_without h u.path).append (List.nodup_singleton _) ?_
  simpa using not_mem_paths_without u.path us

/-! ### Tables with one entry for each source -/

/-- The table holds `f u` at the path of `u`, for each source `u` for which `f` has a value, in the
order of the sources. -/
def Lists {α : Type} (t : Table String α) (f : SourceUnit → Option α) (us : List SourceUnit) :
    Prop :=
  t.entries = us.filterMap fun u => (f u).map fun v => (u.path, v)

namespace Lists

variable {α : Type} {t : Table String α} {f : SourceUnit → Option α} {us : List SourceUnit}

theorem mem_paths (h : Lists t f us) {path : String} (hp : path ∈ t.keys) :
    path ∈ us.map (·.path) := by
  rw [Table.keys, h] at hp
  obtain ⟨entry, he, rfl⟩ := List.mem_map.1 hp
  obtain ⟨u, hu, he⟩ := List.mem_filterMap.1 he
  obtain ⟨v, -, rfl⟩ := Option.map_eq_some_iff.1 he
  exact List.mem_map_of_mem hu

theorem erase (h : Lists t f us) (path : String) : Lists (t.erase path) f (without path us) := by
  change t.entries.filter _ = _
  rw [h, without, List.filter_filterMap, List.filterMap_filter]
  refine List.filterMap_congr fun u _ => ?_
  cases f u <;> by_cases hu : u.path = path <;> simp [hu]

theorem extend_none (h : Lists t f us) {u : SourceUnit} (hu : f u = none) :
    Lists t f (us ++ [u]) := by
  rw [Lists, List.filterMap_append, h]
  simp [hu]

theorem extend_some (h : Lists t f us) {u : SourceUnit} {v : α} (hu : f u = some v)
    (hp : u.path ∉ us.map (·.path)) : Lists (t.insert u.path v) f (us ++ [u]) := by
  rw [Lists, Table.insert_of_not_mem (mt h.mem_paths hp), List.filterMap_append, h]
  simp [hu]

/-- One more source, whose entry is built up step by step. -/
theorem extend_foldl {β : Type} (h : Lists t f us) {u : SourceUnit} {d : α} {step : β → α → α}
    {xs : List β} (hp : u.path ∉ us.map (·.path))
    (hu : f u = if xs = [] then none else some (xs.foldl (fun v x => step x v) d)) :
    Lists (xs.foldl (fun t x => t.update u.path d (step x)) t) f (us ++ [u]) := by
  rw [Table.foldl_update]
  by_cases hxs : xs = []
  · rw [if_pos hxs] at hu ⊢
    exact h.extend_none hu
  · rw [if_neg hxs] at hu ⊢
    rw [Table.update, Table.getD_of_not_mem (mt h.mem_paths hp)]
    exact h.extend_some hu hp

theorem get?_eq (h : Lists t f us) (hn : (us.map (·.path)).Nodup) {u : SourceUnit} (hu : u ∈ us) :
    t.get? u.path = f u := by
  obtain rfl : t = ⟨us.filterMap fun u => (f u).map fun v => (u.path, v)⟩ := congrArg Table.mk h
  induction us with
  | nil => cases hu
  | cons a us ih =>
    obtain ⟨ha, hn⟩ := List.nodup_cons.1 hn
    have hcons : (⟨(a :: us).filterMap fun u => (f u).map fun v => (u.path, v)⟩ : Table String α) =
        ⟨((f a).map fun v => (a.path, v)).toList ++
          us.filterMap fun u => (f u).map fun v => (u.path, v)⟩ := by
      cases hfa : f a <;> simp [hfa]
    rw [hcons]
    rcases List.mem_cons.1 hu with rfl | hu
    · -- without a value of its own the path is nowhere, since no other source has it
      cases hfu : f u with
      | none =>
        have hus : Lists ⟨us.filterMap fun u => (f u).map fun v => (u.path, v)⟩ f us := rfl
        exact Table.get?_eq_none_iff.2 fun hk => ha (hus.mem_paths hk)
      | some v => exact (Table.get?_cons ..).trans (if_pos rfl)
    · have hne : u.path ≠ a.path := fun he => ha (List.mem_map.2 ⟨u, hu, he⟩)
      cases f a with
      | none => exact ih hn hu rfl
      | some v => exact (Table.get?_cons ..).trans ((if_neg hne).trans (ih hn hu rfl))

end Lists

/-! ### Methods and calls -/

/-- The methods of the graph and the calls at each key of the index are those of the sources, in
order. -/
structure Covers (g : CallGraph) (us : List SourceUnit) : Prop where
  units : Lists g.units (fun u => some (methodTable u)) us
  index : ∀ k, g.index.getD k [] = us.flatMap fun u => (indexedCalls u).filter (·.key = k)

theorem unit_of_mem_indexedCalls {u : SourceUnit} {c : IndexedCall} (h : c ∈ indexedCalls u) :
    c.unit = u.path := by
  obtain ⟨m, -, hc⟩ := List.mem_flatMap.1 h
  obtain ⟨call, -, hc⟩ := List.mem_filterMap.1 hc
  obtain ⟨site, -, rfl⟩ := Option.map_eq_some_iff.1 hc
  rfl

theorem covers_empty : Covers empty [] :=
  ⟨rfl, fun _ => rfl⟩

namespace Covers

variable {g : CallGraph} {us : List SourceUnit}

theorem mem_keys_iff (h : Covers g us) {path : String} :
    path ∈ g.units.keys ↔ path ∈ us.map (·.path) := by
  have hkeys : g.units.keys = us.map (·.path) := by
    rw [Table.keys, h.units]
    simp
  rw [hkeys]

theorem removeUnit (h : Covers g us) (hg : g.Listed) (path : String) :
    Covers (g.removeUnit path) (without path us) := by
  refine ⟨removeUnit_units g path ▸ h.units.erase path, fun k => ?_⟩
  by_cases hp : path ∈ g.units.keys
  · rw [getD_removeUnit_index hg hp, h.index, without]
    refine (flatMap_filter_eq fun u _ c hc => ?_).symm
    rw [unit_of_mem_indexedCalls (List.mem_filter.1 hc).1]
  · rw [removeUnit_of_not_contains hp, without_of_not_mem (mt h.mem_keys_iff.2 hp)]
    exact h.index k

theorem replaceUnit (h : Covers g us) (hg : g.Listed) (u : SourceUnit) :
    Covers (g.replaceUnit u) (withLast u us) := by
  have hr := h.removeUnit hg u.path
  refine ⟨?_, fun k => ?_⟩
  · rw [replaceUnit_units]
    exact hr.units.extend_some rfl (not_mem_paths_without u.path us)
  · rw [replaceUnit_index, getD_foldl_enterIndex, hr.index, withLast, List.flatMap_append]
    simp

end Covers

/-! ### All tables -/

/-- The keys of the calls of a source, if it has calls. -/
def callKeys? (u : SourceUnit) : Option (List Key) :=
  if indexedCalls u = [] then none
  else some ((indexedCalls u).foldl (fun keys c => addOnce c.key keys) [])

/-- The variables to which a source gives values, if there are any. -/
def variables? (u : SourceUnit) : Option (List Binding) :=
  if u.bindings.entries = [] then none else some (bindingTable u).keys

/-- The variables to which the source gives values are its own. -/
def OwnsVariables (u : SourceUnit) : Prop :=
  ∀ b ∈ u.bindings.keys, b.unit = u.path

/-- The tables of the graph are made of what the sources contribute, in order. -/
structure IsSum (g : CallGraph) (us : List SourceUnit) : Prop extends Covers g us where
  unitKeys : Lists g.unitKeys callKeys? us
  bindings : g.bindings.entries = us.flatMap fun u => (bindingTable u).entries
  unitBindings : Lists g.unitBindings variables? us

theorem isSum_empty : IsSum empty [] :=
  ⟨covers_empty, rfl, rfl, rfl⟩

theorem unit_of_mem_bindingTable {u : SourceUnit} (hu : OwnsVariables u) :
    ∀ entry ∈ (bindingTable u).entries, entry.1.unit = u.path := by
  refine List.foldlRecOn (motive := fun t : Table Binding Expr => ∀ p ∈ t.entries,
    p.1.unit = u.path) _ _ (by simp) fun t ht entry he => ?_
  exact Table.forall_entries_insert (P := fun (b : Binding) _ => b.unit = u.path) ht
    (hu entry.1 (List.mem_map_of_mem he))

theorem keys_bindingTable (u : SourceUnit) :
    (bindingTable u).keys = u.bindings.entries.foldl (fun bs entry => addOnce entry.1 bs) [] :=
  (List.foldl_hom Table.keys fun t entry => (Table.keys_insert t entry.1 entry.2).symm).symm

namespace IsSum

variable {g : CallGraph} {us : List SourceUnit}

/-- The variables listed for a source are those to which it gives values. -/
theorem getD_unitBindings (h : IsSum g us) (hn : (us.map (·.path)).Nodup) {u : SourceUnit}
    (hu : u ∈ us) : g.unitBindings.getD u.path [] = (bindingTable u).keys := by
  rw [Table.getD, h.unitBindings.get?_eq hn hu, variables?]
  split
  · rename_i hnil
    rw [keys_bindingTable, hnil]
    rfl
  · rfl

theorem removeUnit (h : IsSum g us) (hg : g.Listed) (hn : (us.map (·.path)).Nodup)
    (ho : ∀ u ∈ us, OwnsVariables u) (path : String) :
    IsSum (g.removeUnit path) (without path us) := by
  by_cases hp : path ∈ g.units.keys
  · obtain ⟨u₀, hu₀, rfl⟩ := List.mem_map.1 (h.mem_keys_iff.1 hp)
    refine ⟨h.toCovers.removeUnit hg u₀.path, ?_, ?_, ?_⟩
    · rw [removeUnit_of_contains hp]
      exact h.unitKeys.erase u₀.path
    · rw [removeUnit_of_contains hp, h.getD_unitBindings hn hu₀]
      rw [Table.foldl_erase, h.bindings, without]
      -- a variable of a source is listed with the removed unit iff the source is that unit's
      refine (flatMap_filter_eq fun u hu entry he => ?_).symm
      have hunit := unit_of_mem_bindingTable (ho u hu) entry he
      by_cases hpath : u.path = u₀.path
      · have huu : u = u₀ := List.inj_on_of_nodup_map hn hu hu₀ hpath
        subst huu
        have hmem : entry.1 ∈ (bindingTable u).keys := List.mem_map_of_mem he
        simp [hmem]
      · have hmem : entry.1 ∉ (bindingTable u₀).keys := by
          intro hmem
          obtain ⟨entry', he', heq⟩ := List.mem_map.1 hmem
          have := unit_of_mem_bindingTable (ho u₀ hu₀) entry' he'
          rw [heq, hunit] at this
          exact hpath this
        simp [hmem, hpath]
    · rw [removeUnit_of_contains hp]
      exact h.unitBindings.erase u₀.path
  · rw [removeUnit_of_not_contains hp, without_of_not_mem (mt h.mem_keys_iff.2 hp)]
    exact h

theorem replaceUnit (h : IsSum g us) (hg : g.Listed) (hn : (us.map (·.path)).Nodup)
    (ho : ∀ u ∈ us, OwnsVariables u) {u : SourceUnit} (hu : OwnsVariables u) :
    IsSum (g.replaceUnit u) (withLast u us) := by
  have hr := h.removeUnit hg hn ho u.path
  have hp := not_mem_paths_without u.path us
  refine ⟨h.toCovers.replaceUnit hg u, ?_, ?_, ?_⟩
  · have hkeys : (indexedCalls u).foldl enterKeys (g.removeUnit u.path).unitKeys =
        (indexedCalls u).foldl (fun t c => t.update u.path [] (addOnce c.key))
          (g.removeUnit u.path).unitKeys :=
      List.foldl_ext _ _ _ fun t c hc => by rw [enterKeys, unit_of_mem_indexedCalls hc]
    rw [replaceUnit_unitKeys, hkeys]
    exact hr.unitKeys.extend_foldl hp rfl
  · have hfresh : ∀ entry ∈ u.bindings.entries,
        entry.1 ∉ (g.removeUnit u.path).bindings.keys := by
      intro entry he hmem
      rw [Table.keys, hr.bindings] at hmem
      obtain ⟨entry', he', heq⟩ := List.mem_map.1 hmem
      obtain ⟨u', hu', he'⟩ := List.mem_flatMap.1 he'
      have hunit := unit_of_mem_bindingTable (ho u' (List.mem_filter.1 hu').1) entry' he'
      rw [heq, hu entry.1 (List.mem_map_of_mem he)] at hunit
      exact hp (List.mem_map.2 ⟨u', hu', hunit.symm⟩)
    rw [replaceUnit_bindings, Table.foldl_insert_of_not_mem hfresh, hr.bindings, withLast,
      List.flatMap_append, List.flatMap_singleton]
    rfl
  · rw [replaceUnit_unitBindings]
    refine hr.unitBindings.extend_foldl hp ?_
    rw [variables?, keys_bindingTable]

end IsSum

/-- Two graphs have the same tables.  Of the index, what stands at each key is compared. -/
structure Same (g h : CallGraph) : Prop where
  units : g.units = h.units
  bindings : g.bindings = h.bindings
  unitBindings : g.unitBindings = h.unitBindings
  index : ∀ k, g.index.get? k = h.index.get? k
  unitKeys : g.unitKeys = h.unitKeys

/-- What stands at a key of a tidy index, told from the calls that are found there. -/
theorem Tidy.get?_index {g : CallGraph} (hg : g.Tidy) (k : Key) :
    g.index.get? k = if g.index.getD k [] = [] then none else some (g.index.getD k []) := by
  have hfilled := hg.filled k
  cases hk : g.index.get? k with
  | none => rw [Table.getD, hk]; rfl
  | some calls =>
    rw [hk] at hfilled
    rw [Table.getD_of_get? hk, if_neg fun hnil => hfilled (congrArg some hnil)]

/-- **The sources determine the graph.** -/
theorem IsSum.same {g h : CallGraph} {us : List SourceUnit} (hg : IsSum g us) (hh : IsSum h us)
    (tg : g.Tidy) (th : h.Tidy) : Same g h where
  units := congrArg Table.mk (hg.units.trans hh.units.symm)
  bindings := congrArg Table.mk (hg.bindings.trans hh.bindings.symm)
  unitBindings := congrArg Table.mk (hg.unitBindings.trans hh.unitBindings.symm)
  index k := by rw [tg.get?_index, th.get?_index, hg.index, hh.index]
  unitKeys := congrArg Table.mk (hg.unitKeys.trans hh.unitKeys.symm)

end CallGraph

end TaintFlow
