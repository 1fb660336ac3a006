import TaintFlow.CallGraph
import TaintFlow.Proofs.Table

/-!
# What a change does to the tables of a call graph

A change of a call graph works on five tables at once.  This file takes the changes apart: for every
change and every table there is one equation that gives the new table from the old one, so that
later proofs treat the tables one by one.

* `addCall_units`, `addCall_index`, `addCall_unitKeys` : one more call.
* `replaceUnit_units` and its companions : a new unit, table by table.  What the unit's source
  contributes is said without the graph, by `methodTable`, `indexedCalls` and `bindingTable`.
* `getD_removeUnit_index` : removing a unit takes exactly its calls out of the index, provided that
  the keys of the unit are listed.
-/

namespace TaintFlow

open TaintFlow.Code TaintFlow.Types

namespace CallGraph

/-- The key at which a call stands in the index. -/
def IndexedCall.key (c : IndexedCall) : Key :=
  (c.site.name, c.site.arity)

/-- A call as it stands in the index; an expression that is no call does not stand there. -/
def indexed? (unit : String) (caller : Method) (call : Expr) : Option IndexedCall :=
  (Site.ofExpr? call).map fun site => ⟨unit, caller, call, site⟩

/-- The index with one more call. -/
def enterIndex (index : Table Key (List IndexedCall)) (c : IndexedCall) :
    Table Key (List IndexedCall) :=
  index.update c.key [] (· ++ [c])

/-- The keys of the units when one more call stands in the index. -/
def enterKeys (keys : Table String (List Key)) (c : IndexedCall) : Table String (List Key) :=
  keys.update c.unit [] (addOnce c.key)

/-- The methods of a unit with one more method; of two with one signature the first stays. -/
def declare (m : Method) (methods : Table Signature Entry) : Table Signature Entry :=
  if methods.contains m.signature then methods else methods.insert m.signature ⟨m, []⟩

/-- The methods of a unit when one of them has one more call. -/
def record (m : Method) (call : Expr) (methods : Table Signature Entry) : Table Signature Entry :=
  (declare m methods).update m.signature ⟨m, []⟩ fun entry =>
    { entry with calls := entry.calls ++ [call] }

/-- The methods that a source declares, with their calls. -/
def methodTable (source : SourceUnit) : Table Signature Entry :=
  source.methods.foldl (fun methods m =>
    (source.calls.getD m.signature []).foldl (fun methods call => record m call methods)
      (declare m methods)) {}

/-- The calls of a source as they come into the index. -/
def indexedCalls (source : SourceUnit) : List IndexedCall :=
  source.methods.flatMap fun m =>
    (source.calls.getD m.signature []).filterMap (indexed? source.path m)

/-- The values of variables that a source gives. -/
def bindingTable (source : SourceUnit) : Table Binding Expr :=
  source.bindings.entries.foldl (fun t entry => t.insert entry.1 entry.2) {}

/-! ### Single changes -/

section

variable (g : CallGraph) (unit : String) (m : Method) (call : Expr)

theorem addMethod_units :
    (g.addMethod unit m).units = g.units.update unit {} (declare m) := rfl

theorem addCall_units :
    (g.addCall unit m call).units = g.units.update unit {} (record m call) := by
  have h : (g.addCall unit m call).units = (g.attach unit m call).units := by
    unfold addCall
    cases Site.ofExpr? call <;> rfl
  rw [h]
  exact Table.update_update g.units unit {} (declare m) fun methods =>
    methods.update m.signature ⟨m, []⟩ fun entry => { entry with calls := entry.calls ++ [call] }

theorem addCall_index :
    (g.addCall unit m call).index = (indexed? unit m call).toList.foldl enterIndex g.index := by
  unfold addCall indexed?
  cases Site.ofExpr? call <;> rfl

theorem addCall_unitKeys :
    (g.addCall unit m call).unitKeys =
      (indexed? unit m call).toList.foldl enterKeys g.unitKeys := by
  unfold addCall indexed?
  cases Site.ofExpr? call <;> rfl

theorem addCall_bindings : (g.addCall unit m call).bindings = g.bindings := by
  unfold addCall
  cases Site.ofExpr? call <;> rfl

theorem addCall_unitBindings : (g.addCall unit m call).unitBindings = g.unitBindings := by
  unfold addCall
  cases Site.ofExpr? call <;> rfl

theorem removeUnit_of_not_contains {g : CallGraph} {unit : String} (h : unit ∉ g.units.keys) :
    g.removeUnit unit = g :=
  if_neg (mt Table.contains_iff.1 h)

theorem removeUnit_of_contains {g : CallGraph} {unit : String} (h : unit ∈ g.units.keys) :
    g.removeUnit unit =
      { units := g.units.erase unit
        bindings := (g.unitBindings.getD unit []).foldl Table.erase g.bindings
        unitBindings := g.unitBindings.erase unit
        index := (g.unitKeys.getD unit []).foldl (dropCalls unit) g.index
        unitKeys := g.unitKeys.erase unit } :=
  if_pos (Table.contains_iff.2 h)

theorem removeUnit_units : (g.removeUnit unit).units = g.units.erase unit := by
  by_cases h : unit ∈ g.units.keys
  · rw [removeUnit_of_contains h]
  · rw [removeUnit_of_not_contains h, Table.erase_of_not_mem h]

theorem not_mem_keys_removeUnit : unit ∉ (g.removeUnit unit).units.keys := by
  rw [removeUnit_units]
  exact Table.not_mem_keys_erase _ _

end

/-! ### Replacing a unit, table by table -/

section

variable (g : CallGraph) (source : SourceUnit)

/-- A table that the values of variables do not touch. -/
theorem foldl_addBinding_eq {α : Type} (view : CallGraph → α) (unit : String)
    (h : ∀ g b v, view (addBinding g unit b v) = view g) (entries : List (Binding × Expr)) :
    view (entries.foldl (fun g entry => g.addBinding unit entry.1 entry.2) g) = view g := by
  induction entries generalizing g with
  | nil => rfl
  | cons entry entries ih => rw [List.foldl_cons, ih, h]

/-- A table on which declarations work call by call. -/
theorem foldl_addDeclaration {α : Type} (view : CallGraph → α) (onMethod : Method → α → α)
    (onCall : Method → Expr → α → α)
    (hm : ∀ g m, view (addMethod g source.path m) = onMethod m (view g))
    (hc : ∀ g m call, view (addCall g source.path m call) = onCall m call (view g))
    (methods : List Method) :
    view (methods.foldl (addDeclaration source) g) =
      methods.foldl (fun a m => (source.calls.getD m.signature []).foldl (fun a call =>
        onCall m call a) (onMethod m a)) (view g) := by
  refine (List.foldl_hom view fun g m => ?_).symm
  rw [addDeclaration, ← hm]
  exact List.foldl_hom view fun g call => (hc g m call).symm

theorem replaceUnit_units :
    (g.replaceUnit source).units =
      (g.removeUnit source.path).units.insert source.path (methodTable source) := by
  rw [replaceUnit, foldl_addBinding_eq _ units _ (fun _ _ _ => rfl),
    foldl_addDeclaration _ source units (fun m t => t.update source.path {} (declare m))
      (fun m call t => t.update source.path {} (record m call))
      (fun g m => addMethod_units g source.path m)
      (fun g m call => addCall_units g source.path m call)]
  -- every step updates the entry that `addUnit` made
  refine (List.foldl_hom (fun t => (g.removeUnit source.path).units.insert source.path t)
    fun t m => ?_)
  rw [Table.update_insert]
  exact List.foldl_hom _ fun t call => Table.update_insert ..

/-- A table on which only the calls of the source work. -/
theorem foldl_addDeclaration_indexed {α : Type} (view : CallGraph → α) (f : α → IndexedCall → α)
    (hm : ∀ g m, view (addMethod g source.path m) = view g)
    (hc : ∀ g m call, view (addCall g source.path m call) =
      (indexed? source.path m call).toList.foldl f (view g)) :
    view (source.methods.foldl (addDeclaration source) g) =
      (indexedCalls source).foldl f (view g) := by
  rw [foldl_addDeclaration g source view (fun _ a => a)
    (fun m call a => (indexed? source.path m call).toList.foldl f a) hm hc, indexedCalls,
    List.foldl_flatMap]
  congr 1
  funext a m
  rw [List.foldl_filterMap]
  congr 1
  funext a call
  cases indexed? source.path m call <;> rfl

theorem replaceUnit_index :
    (g.replaceUnit source).index =
      (indexedCalls source).foldl enterIndex (g.removeUnit source.path).index := by
  rw [replaceUnit, foldl_addBinding_eq _ index _ (fun _ _ _ => rfl),
    foldl_addDeclaration_indexed _ source index enterIndex (fun _ _ => rfl)
      fun g m call => addCall_index g source.path m call]
  rfl

theorem replaceUnit_unitKeys :
    (g.replaceUnit source).unitKeys =
      (indexedCalls source).foldl enterKeys (g.removeUnit source.path).unitKeys := by
  rw [replaceUnit, foldl_addBinding_eq _ unitKeys _ (fun _ _ _ => rfl),
    foldl_addDeclaration_indexed _ source unitKeys enterKeys (fun _ _ => rfl)
      fun g m call => addCall_unitKeys g source.path m call]
  rfl

/-- A table that declarations do not touch. -/
theorem foldl_addDeclaration_eq {α : Type} (view : CallGraph → α)
    (hm : ∀ g m, view (addMethod g source.path m) = view g)
    (hc : ∀ g m call, view (addCall g source.path m call) = view g) (methods : List Method) :
    view (methods.foldl (addDeclaration source) g) = view g := by
  rw [foldl_addDeclaration g source view (fun _ a => a) (fun _ _ a => a) hm hc]
  simp

theorem replaceUnit_bindings :
    (g.replaceUnit source).bindings = source.bindings.entries.foldl
      (fun t entry => t.insert entry.1 entry.2) (g.removeUnit source.path).bindings := by
  have h := foldl_addDeclaration_eq (g.addUnit source.path) source bindings (fun _ _ => rfl)
    (fun g m call => addCall_bindings g source.path m call) source.methods
  calc (g.replaceUnit source).bindings
      = source.bindings.entries.foldl (fun t entry => t.insert entry.1 entry.2)
          (source.methods.foldl (addDeclaration source) (g.addUnit source.path)).bindings :=
        (List.foldl_hom bindings fun _ _ => rfl).symm
    _ = _ := by rw [h]; rfl

theorem replaceUnit_unitBindings :
    (g.replaceUnit source).unitBindings = source.bindings.entries.foldl
      (fun t entry => t.update source.path [] (addOnce entry.1))
      (g.removeUnit source.path).unitBindings := by
  have h := foldl_addDeclaration_eq (g.addUnit source.path) source unitBindings (fun _ _ => rfl)
    (fun g m call => addCall_unitBindings g source.path m call) source.methods
  calc (g.replaceUnit source).unitBindings
      = source.bindings.entries.foldl (fun t entry => t.update source.path [] (addOnce entry.1))
          (source.methods.foldl (addDeclaration source) (g.addUnit source.path)).unitBindings :=
        (List.foldl_hom unitBindings fun _ _ => rfl).symm
    _ = _ := by rw [h]; rfl

end

/-! ### The index -/

theorem getD_enterIndex (index : Table Key (List IndexedCall)) (c : IndexedCall) (k : Key) :
    (enterIndex index c).getD k [] = index.getD k [] ++ [c].filter (·.key = k) := by
  rw [enterIndex, Table.getD_update]
  by_cases h : k = c.key
  · simp [h]
  · simp [h, Ne.symm h]

theorem getD_foldl_enterIndex (index : Table Key (List IndexedCall)) (cs : List IndexedCall)
    (k : Key) :
    (cs.foldl enterIndex index).getD k [] = index.getD k [] ++ cs.filter (·.key = k) := by
  induction cs generalizing index with
  | nil => simp
  | cons c cs ih =>
    rw [List.foldl_cons, ih, getD_enterIndex, List.append_assoc, ← List.filter_append]
    rfl

theorem getD_dropCalls (unit : String) (index : Table Key (List IndexedCall)) (key k : Key) :
    (dropCalls unit index key).getD k [] =
      if k = key then (index.getD key []).filter (·.unit ≠ unit) else index.getD k [] := by
  unfold dropCalls
  split
  · rename_i h
    rw [Table.getD_erase, h]
  · rw [Table.getD_insert]

theorem getD_foldl_dropCalls (unit : String) (index : Table Key (List IndexedCall))
    (keys : List Key) (k : Key) :
    (keys.foldl (dropCalls unit) index).getD k [] =
      if k ∈ keys then (index.getD k []).filter (·.unit ≠ unit) else index.getD k [] := by
  induction keys generalizing index with
  | nil => simp
  | cons key keys ih =>
    rw [List.foldl_cons, ih, getD_dropCalls]
    by_cases hk : k = key
    · subst hk
      simp
    · simp [hk]

/-- The keys of every unit are listed: a call of the unit stands only at one of them. -/
def Listed (g : CallGraph) : Prop :=
  ∀ k, ∀ c ∈ g.index.getD k [], k ∈ g.unitKeys.getD c.unit []

/-- **Removing a unit** takes exactly its calls out of the index. -/
theorem getD_removeUnit_index {g : CallGraph} {unit : String} (hg : g.Listed)
    (h : unit ∈ g.units.keys) (k : Key) :
    (g.removeUnit unit).index.getD k [] = (g.index.getD k []).filter (·.unit ≠ unit) := by
  rw [removeUnit_of_contains h, getD_foldl_dropCalls]
  split
  · rfl
  · rename_i hk
    refine (List.filter_eq_self.2 fun c hc => decide_eq_true ?_).symm
    rintro rfl
    exact hk (hg k c hc)

end CallGraph

end TaintFlow
