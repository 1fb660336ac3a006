import TaintFlow.Proofs.CallGraph.Change

/-!
# The index agrees with the methods

The calls of a call graph stand twice in it: with the methods that contain them, and in the index.
Every change keeps the two in agreement.

* `Tidy` : every key at which a unit has calls is listed with the unit, no key stands twice in the
  index, and none stands there without calls.
* `Consistent` : besides, every method is kept under its own signature, and the index holds at every
  key the calls of the methods with that key, each as often as the methods have it.

* `Keyed` : no unit stands twice in the graph, and no signature twice in a unit.

A change of a whole unit is made of changes of single methods, calls and variables, so it keeps what
these keep (`replaceUnit_induction`).
-/

namespace TaintFlow

open TaintFlow.Code TaintFlow.Types

namespace CallGraph

/-- What single changes keep, replacing a unit keeps. -/
theorem replaceUnit_induction {P : CallGraph → Prop} {source : SourceUnit}
    (hunit : ∀ g, P g → P (addUnit g source.path))
    (hmethod : ∀ g, P g → ∀ m, P (addMethod g source.path m))
    (hcall : ∀ g, P g → ∀ m, ∀ e ∈ source.calls.getD m.signature [], P (addCall g source.path m e))
    (hbinding : ∀ g, P g → ∀ b v, P (addBinding g source.path b v)) {g : CallGraph} (hg : P g) :
    P (g.replaceUnit source) := by
  refine List.foldlRecOn _ _ ?_ fun g hg entry _ => hbinding g hg entry.1 entry.2
  refine List.foldlRecOn _ _ (hunit g hg) fun g hg m _ => ?_
  exact List.foldlRecOn _ _ (hmethod g hg m) fun g hg e he => hcall g hg m e he

/-! ### A tidy index -/

/-- The index and the lists of keys are in order. -/
structure Tidy (g : CallGraph) : Prop where
  listed : g.Listed
  nodup : g.index.keys.Nodup
  filled : ∀ k, g.index.get? k ≠ some []

theorem mem_addOnce {α : Type} [DecidableEq α] {x y : α} {xs : List α} :
    y ∈ addOnce x xs ↔ y = x ∨ y ∈ xs := by
  unfold addOnce
  split
  · rename_i h
    exact ⟨.inr, fun hy => hy.elim (fun e => e ▸ h) id⟩
  · rw [List.mem_append, List.mem_singleton, or_comm]

theorem nodup_dropCalls {index : Table Key (List IndexedCall)} (h : index.keys.Nodup)
    (unit : String) (key : Key) : (dropCalls unit index key).keys.Nodup := by
  unfold dropCalls
  split
  · exact Table.nodup_keys_erase h _
  · exact Table.nodup_keys_insert h _ _

theorem filled_dropCalls {index : Table Key (List IndexedCall)} (h : ∀ k, index.get? k ≠ some [])
    (unit : String) (key : Key) (k : Key) : (dropCalls unit index key).get? k ≠ some [] := by
  unfold dropCalls
  split
  · rw [Table.get?_erase]
    split
    · exact (Option.some_ne_none []).symm
    · exact h k
  · rename_i hrest
    rw [Table.get?_insert]
    split
    · exact fun heq => hrest (Option.some.inj heq)
    · exact h k

theorem tidy_empty : empty.Tidy where
  listed := nofun
  nodup := List.nodup_nil
  filled := nofun

namespace Tidy

/-- Being tidy is a matter of the index and the lists of keys. -/
theorem congr {g g' : CallGraph} (hg : g.Tidy) (hi : g'.index = g.index)
    (hk : g'.unitKeys = g.unitKeys) : g'.Tidy where
  listed := by
    rw [Listed, hi, hk]
    exact hg.listed
  nodup := hi ▸ hg.nodup
  filled := hi ▸ hg.filled

theorem enter {g g' : CallGraph} (hg : g.Tidy) {c : IndexedCall}
    (hi : g'.index = enterIndex g.index c) (hk : g'.unitKeys = enterKeys g.unitKeys c) :
    g'.Tidy where
  listed := by
    intro k c' hc'
    rw [hi, getD_enterIndex, List.mem_append, List.mem_filter, List.mem_singleton,
      decide_eq_true_iff] at hc'
    rw [hk, enterKeys, Table.getD_update]
    -- a call that was there is listed as before, and the new one has just been listed
    rcases hc' with hc' | ⟨rfl, rfl⟩
    · have := hg.listed k c' hc'
      split
      · rename_i hu
        exact mem_addOnce.2 (.inr (hu ▸ this))
      · exact this
    · rw [if_pos rfl]
      exact mem_addOnce.2 (.inl rfl)
  nodup := hi ▸ Table.nodup_keys_insert hg.nodup _ _
  filled := by
    intro k
    rw [hi, enterIndex, Table.update, Table.get?_insert]
    split
    · simp
    · exact hg.filled k

theorem removeUnit {g : CallGraph} (hg : g.Tidy) (unit : String) : (g.removeUnit unit).Tidy := by
  by_cases h : unit ∈ g.units.keys
  · refine ⟨fun k c hc => ?_, ?_, ?_⟩
    · rw [getD_removeUnit_index hg.listed h, List.mem_filter, decide_eq_true_iff] at hc
      rw [removeUnit_of_contains h, Table.getD_erase, if_neg hc.2]
      exact hg.listed k c hc.1
    · rw [removeUnit_of_contains h]
      exact List.foldlRecOn (motive := fun index => (Table.keys index).Nodup) _ _ hg.nodup
        fun index hindex key _ => nodup_dropCalls hindex unit key
    · rw [removeUnit_of_contains h]
      exact List.foldlRecOn (motive := fun index => ∀ k, Table.get? index k ≠ some []) _ _ hg.filled
        fun index hindex key _ => filled_dropCalls hindex unit key
  · rwa [removeUnit_of_not_contains h]

theorem addUnit {g : CallGraph} (hg : g.Tidy) (unit : String) : (g.addUnit unit).Tidy :=
  (hg.removeUnit unit).congr rfl rfl

theorem addMethod {g : CallGraph} (hg : g.Tidy) (unit : String) (m : Method) :
    (g.addMethod unit m).Tidy :=
  hg.congr rfl rfl

theorem addCall {g : CallGraph} (hg : g.Tidy) (unit : String) (m : Method) (call : Expr) :
    (g.addCall unit m call).Tidy := by
  have hi := addCall_index g unit m call
  have hk := addCall_unitKeys g unit m call
  cases hc : indexed? unit m call with
  | none => rw [hc] at hi hk; exact hg.congr hi hk
  | some c => rw [hc] at hi hk; exact hg.enter hi hk

theorem addBinding {g : CallGraph} (hg : g.Tidy) (unit : String) (b : Binding) (v : Expr) :
    (g.addBinding unit b v).Tidy :=
  hg.congr rfl rfl

theorem replaceUnit {g : CallGraph} (hg : g.Tidy) (source : SourceUnit) :
    (g.replaceUnit source).Tidy :=
  replaceUnit_induction (fun _ h => h.addUnit _) (fun _ h => h.addMethod _)
    (fun _ h m e _ => h.addCall _ m e) (fun _ h => h.addBinding _) hg

end Tidy

/-! ### Occurrences of calls -/

/-- A call in the body of a method of a unit: what the methods and the index both know of it. -/
structure Occurrence where
  unit : String
  caller : Signature
  call : Expr
  site : Site

/-- The key of the call. -/
def Occurrence.key (o : Occurrence) : Key :=
  (o.site.name, o.site.arity)

/-- What is known of a call in the index. -/
def IndexedCall.occurrence (c : IndexedCall) : Occurrence :=
  ⟨c.unit, c.caller.signature, c.call, c.site⟩

/-- The occurrences of calls among the expressions of one method. -/
def occurrencesIn (unit : String) (caller : Signature) (calls : List Expr) : List Occurrence :=
  calls.filterMap fun call => (Site.ofExpr? call).map fun site => ⟨unit, caller, call, site⟩

/-- The occurrences of calls in the methods of one unit. -/
def occurrencesOf (unit : String) (methods : Table Signature Entry) : List Occurrence :=
  methods.entries.flatMap fun p => occurrencesIn unit p.1 p.2.calls

/-- The occurrences of calls in all units. -/
def occurrences (units : Table String (Table Signature Entry)) : List Occurrence :=
  units.entries.flatMap fun p => occurrencesOf p.1 p.2

theorem unit_of_mem_occurrencesOf {unit : String} {methods : Table Signature Entry}
    {o : Occurrence} (h : o ∈ occurrencesOf unit methods) : o.unit = unit := by
  obtain ⟨p, -, ho⟩ := List.mem_flatMap.1 h
  obtain ⟨call, -, ho⟩ := List.mem_filterMap.1 ho
  obtain ⟨site, -, rfl⟩ := Option.map_eq_some_iff.1 ho
  rfl

theorem occurrencesOf_declare (unit : String) (m : Method) (methods : Table Signature Entry) :
    occurrencesOf unit (declare m methods) = occurrencesOf unit methods := by
  unfold declare
  split
  · rfl
  · rename_i h
    rw [occurrencesOf, Table.insert_of_not_mem (mt Table.contains_iff.2 h)]
    simp [occurrencesOf, occurrencesIn]

theorem occurrencesOf_record (unit : String) (m : Method) (call : Expr)
    (methods : Table Signature Entry) :
    (occurrencesOf unit (record m call methods)).Perm
      (occurrencesOf unit methods ++
        (indexed? unit m call).toList.map IndexedCall.occurrence) := by
  rw [← occurrencesOf_declare unit m methods]
  refine Table.flatMap_update_perm (F := fun s (entry : Entry) => occurrencesIn unit s entry.calls)
    _ rfl fun entry => .of_eq ?_
  simp only [occurrencesIn, indexed?, List.filterMap_append]
  cases h : Site.ofExpr? call <;> simp [h, IndexedCall.occurrence]

theorem occurrences_erase (units : Table String (Table Signature Entry)) (unit : String) :
    occurrences (units.erase unit) = (occurrences units).filter (·.unit ≠ unit) :=
  flatMap_filter_eq fun p _ o ho => by rw [unit_of_mem_occurrencesOf ho]

theorem occurrences_insert_of_not_mem {units : Table String (Table Signature Entry)}
    {unit : String} (h : unit ∉ units.keys) : occurrences (units.insert unit {}) =
      occurrences units := by
  rw [occurrences, Table.insert_of_not_mem h]
  simp [occurrences, occurrencesOf]

theorem occurrences_declare (units : Table String (Table Signature Entry)) (unit : String)
    (m : Method) :
    (occurrences (units.update unit {} (declare m))).Perm (occurrences units) := by
  have h : (occurrences (units.update unit {} (declare m))).Perm (occurrences units ++ []) :=
    Table.flatMap_update_perm units rfl fun methods => by
      rw [occurrencesOf_declare, List.append_nil]
  rwa [List.append_nil] at h

theorem occurrences_record (units : Table String (Table Signature Entry)) (unit : String)
    (m : Method) (call : Expr) :
    (occurrences (units.update unit {} (record m call))).Perm
      (occurrences units ++ (indexed? unit m call).toList.map IndexedCall.occurrence) :=
  Table.flatMap_update_perm units rfl (occurrencesOf_record unit m call)

/-! ### Agreement -/

/-- An entry that is kept under the signature of its method and holds nothing but calls. -/
structure Entry.Sound (s : Signature) (entry : Entry) : Prop where
  named : entry.method.signature = s
  calls : ∀ e ∈ entry.calls, e.isCall = true

/-- The entries of the methods of a unit are sound. -/
def SoundMethods (methods : Table Signature Entry) : Prop :=
  ∀ q ∈ methods.entries, Entry.Sound q.1 q.2

/-- The source lists nothing but calls as the calls of its methods. -/
def CallsOnly (source : SourceUnit) : Prop :=
  ∀ calls ∈ source.calls.values, ∀ e ∈ calls, e.isCall = true

/-- The methods and the index are in agreement. -/
structure Consistent (g : CallGraph) : Prop where
  tidy : g.Tidy
  sound : ∀ p ∈ g.units.entries, SoundMethods p.2
  agrees : ∀ k, ((g.index.getD k []).map IndexedCall.occurrence).Perm
    ((occurrences g.units).filter (·.key = k))

theorem consistent_empty : empty.Consistent where
  tidy := tidy_empty
  sound := nofun
  agrees _ := .nil

theorem soundMethods_empty : SoundMethods {} := nofun

theorem sound_of_method (m : Method) : Entry.Sound m.signature ⟨m, []⟩ :=
  ⟨rfl, nofun⟩

theorem SoundMethods.declare {methods : Table Signature Entry} (h : SoundMethods methods)
    (m : Method) : SoundMethods (declare m methods) := by
  unfold CallGraph.declare
  split
  · exact h
  · exact Table.forall_entries_insert h (sound_of_method m)

theorem SoundMethods.record {methods : Table Signature Entry} (h : SoundMethods methods)
    (m : Method) {call : Expr} (hcall : call.isCall = true) :
    SoundMethods (record m call methods) := by
  refine Table.forall_entries_update (P := Entry.Sound) (h.declare m) (sound_of_method m)
    fun entry hentry => ⟨hentry.named, fun e he => ?_⟩
  rcases List.mem_append.1 he with he | he
  · exact hentry.calls e he
  · rwa [List.mem_singleton.1 he]

namespace Consistent

theorem removeUnit {g : CallGraph} (hg : g.Consistent) (unit : String) :
    (g.removeUnit unit).Consistent := by
  by_cases h : unit ∈ g.units.keys
  · refine ⟨hg.tidy.removeUnit unit, fun p hp => ?_, fun k => ?_⟩
    · rw [removeUnit_units] at hp
      exact hg.sound p (List.mem_filter.1 hp).1
    · rw [getD_removeUnit_index hg.tidy.listed h, removeUnit_units, occurrences_erase,
        List.filter_comm]
      have hmap := List.filter_map (f := IndexedCall.occurrence) (p := fun o => o.unit ≠ unit)
        (l := g.index.getD k [])
      exact (List.Perm.of_eq hmap.symm).trans ((hg.agrees k).filter _)
  · rwa [removeUnit_of_not_contains h]

theorem addUnit {g : CallGraph} (hg : g.Consistent) (unit : String) :
    (g.addUnit unit).Consistent := by
  have hr := hg.removeUnit unit
  refine ⟨hg.tidy.addUnit unit, Table.forall_entries_insert
    (P := fun _ methods => SoundMethods methods) hr.sound soundMethods_empty, fun k => ?_⟩
  have hunits : occurrences (g.addUnit unit).units = occurrences (g.removeUnit unit).units :=
    occurrences_insert_of_not_mem (not_mem_keys_removeUnit g unit)
  rw [hunits]
  exact hr.agrees k

theorem addMethod {g : CallGraph} (hg : g.Consistent) (unit : String) (m : Method) :
    (g.addMethod unit m).Consistent where
  tidy := hg.tidy.addMethod unit m
  sound := Table.forall_entries_update (P := fun _ methods => SoundMethods methods) hg.sound
    soundMethods_empty fun _ h => h.declare m
  agrees k := (hg.agrees k).trans ((occurrences_declare g.units unit m).symm.filter _)

theorem addCall {g : CallGraph} (hg : g.Consistent) (unit : String) (m : Method) {call : Expr}
    (hcall : call.isCall = true) : (g.addCall unit m call).Consistent where
  tidy := hg.tidy.addCall unit m call
  sound := by
    rw [addCall_units]
    exact Table.forall_entries_update (P := fun _ methods => SoundMethods methods) hg.sound
      soundMethods_empty fun _ h => h.record m hcall
  agrees k := by
    rw [addCall_index, addCall_units, getD_foldl_enterIndex, List.map_append]
    have h := ((occurrences_record g.units unit m call).filter fun o => o.key = k).symm
    rw [List.filter_append, List.filter_map] at h
    exact ((hg.agrees k).append_right _).trans h

theorem addBinding {g : CallGraph} (hg : g.Consistent) (unit : String) (b : Binding) (v : Expr) :
    (g.addBinding unit b v).Consistent :=
  ⟨hg.tidy.addBinding unit b v, hg.sound, hg.agrees⟩

theorem replaceUnit {g : CallGraph} (hg : g.Consistent) {source : SourceUnit}
    (hs : CallsOnly source) : (g.replaceUnit source).Consistent :=
  replaceUnit_induction (fun _ h => h.addUnit _) (fun _ h => h.addMethod _)
    (fun _ h m _ he =>
      have ⟨calls, hcalls, he⟩ := Table.exists_mem_values_of_mem_getD he
      h.addCall _ m (hs calls hcalls _ he))
    (fun _ h => h.addBinding _) hg

end Consistent

/-! ### Distinct keys -/

/-- No unit stands twice in the graph, and no signature twice in a unit. -/
structure Keyed (g : CallGraph) : Prop where
  units : g.units.keys.Nodup
  methods : ∀ p ∈ g.units.entries, p.2.keys.Nodup

theorem keyed_empty : empty.Keyed :=
  ⟨List.nodup_nil, nofun⟩

theorem nodup_keys_declare {methods : Table Signature Entry} (h : methods.keys.Nodup) (m : Method) :
    (declare m methods).keys.Nodup := by
  unfold declare
  split
  · exact h
  · exact Table.nodup_keys_insert h _ _

namespace Keyed

/-- Changing the methods of one unit keeps the keys distinct when it keeps those of the unit so. -/
theorem update {g g' : CallGraph} (hg : g.Keyed) {unit : String}
    {f : Table Signature Entry → Table Signature Entry} (h : g'.units = g.units.update unit {} f)
    (hf : ∀ methods, methods.keys.Nodup → (f methods).keys.Nodup) : g'.Keyed where
  units := h ▸ Table.nodup_keys_insert hg.units _ _
  methods := by
    have hnil : (Table.keys ({} : Table Signature Entry)).Nodup := List.nodup_nil
    rw [h]
    exact Table.forall_entries_update (P := fun _ methods => (Table.keys methods).Nodup) hg.methods
      hnil hf

theorem removeUnit {g : CallGraph} (hg : g.Keyed) (unit : String) : (g.removeUnit unit).Keyed where
  units := by
    rw [removeUnit_units]
    exact Table.nodup_keys_erase hg.units unit
  methods p hp := by
    rw [removeUnit_units] at hp
    exact hg.methods p (List.mem_filter.1 hp).1

theorem addUnit {g : CallGraph} (hg : g.Keyed) (unit : String) : (g.addUnit unit).Keyed :=
  (hg.removeUnit unit).update (f := fun _ => {}) rfl fun _ _ => List.nodup_nil

theorem addMethod {g : CallGraph} (hg : g.Keyed) (unit : String) (m : Method) :
    (g.addMethod unit m).Keyed :=
  hg.update (addMethod_units g unit m) fun _ h => nodup_keys_declare h m

theorem addCall {g : CallGraph} (hg : g.Keyed) (unit : String) (m : Method) (call : Expr) :
    (g.addCall unit m call).Keyed :=
  hg.update (addCall_units g unit m call) fun _ h =>
    Table.nodup_keys_insert (nodup_keys_declare h m) _ _

theorem addBinding {g : CallGraph} (hg : g.Keyed) (unit : String) (b : Binding) (v : Expr) :
    (g.addBinding unit b v).Keyed :=
  ⟨hg.units, hg.methods⟩

theorem replaceUnit {g : CallGraph} (hg : g.Keyed) (source : SourceUnit) :
    (g.replaceUnit source).Keyed :=
  replaceUnit_induction (fun _ h => h.addUnit _) (fun _ h => h.addMethod _)
    (fun _ h m e _ => h.addCall _ m e) (fun _ h => h.addBinding _) hg

end Keyed

end CallGraph

end TaintFlow
