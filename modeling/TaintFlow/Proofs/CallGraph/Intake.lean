import TaintFlow.Proofs.CallGraph.Invokers
import TaintFlow.Proofs.Java.Declarations
import TaintFlow.Proofs.Java.Unit
import Mathlib.Data.List.Perm.Subperm

/-!
# How calls come from a source into the graph

A unit that was read lists its calls by signature, and the calls of two methods with one signature
together.  A unit that enters the graph is walked through method by method, and each method brings
all calls listed for its signature.  So the calls of a signature are entered as often as methods with
that signature are declared: once, unless two declarations share it.

* `callsIn_methodTable` : the calls of a signature after a source has entered.
* `listsMethods_unitOf` : a unit that was read lists calls for the signatures of its methods, each once.
* `calls_enter_once_per_declaration` : what the graph then knows, for every unit that can be read.
* `shared_signature_doubles_calls` : two constructors of a record that share a signature.
-/

namespace TaintFlow

open TaintFlow.Code TaintFlow.Types

namespace CallGraph

/-! ### The calls of a signature -/

/-- The calls of a signature among the methods of a unit. -/
def callsIn (methods : Table Signature Entry) (s : Signature) : List Expr :=
  match methods.get? s with
  | some entry => entry.calls
  | none => []

theorem callsIn_declare (m : Method) (methods : Table Signature Entry) (s : Signature) :
    callsIn (declare m methods) s = callsIn methods s := by
  unfold declare
  split
  · rfl
  · rename_i hnew
    rw [callsIn, callsIn, Table.get?_insert]
    by_cases hs : s = m.signature
    · subst hs
      have hnone : methods.get? m.signature = none := by simpa [Table.contains] using hnew
      rw [if_pos rfl, hnone]
    · rw [if_neg hs]

theorem callsIn_record (m : Method) (call : Expr) (methods : Table Signature Entry) (s : Signature) :
    callsIn (record m call methods) s =
      if s = m.signature then callsIn methods s ++ [call] else callsIn methods s := by
  rw [← callsIn_declare m methods s, record, callsIn, Table.update, Table.get?_insert]
  by_cases hs : s = m.signature
  · subst hs
    rw [if_pos rfl, if_pos rfl, callsIn, Table.getD]
    cases (declare m methods).get? m.signature <;> rfl
  · rw [if_neg hs, if_neg hs]
    rfl

theorem callsIn_foldl_record (m : Method) (es : List Expr) (methods : Table Signature Entry)
    (s : Signature) :
    callsIn (es.foldl (fun methods call => record m call methods) methods) s =
      if s = m.signature then callsIn methods s ++ es else callsIn methods s := by
  induction es generalizing methods with
  | nil => simp
  | cons e es ih =>
    rw [List.foldl_cons, ih, callsIn_record]
    by_cases hs : s = m.signature
    · simp [hs]
    · simp [hs]

/-- **The calls of a signature** are entered once for each method that is declared with it. -/
theorem callsIn_methodTable (u : SourceUnit) (s : Signature) :
    callsIn (methodTable u) s =
      (List.replicate ((u.methods.map (·.signature)).count s) (u.calls.getD s [])).flatten := by
  -- the methods still to come add as many copies as there are declarations among them
  have key : ∀ (ms : List Method) (t : Table Signature Entry),
      callsIn (ms.foldl (fun methods m => (u.calls.getD m.signature []).foldl
        (fun methods call => record m call methods) (declare m methods)) t) s =
        callsIn t s ++
          (List.replicate ((ms.map (·.signature)).count s) (u.calls.getD s [])).flatten := by
    intro ms
    induction ms with
    | nil => simp
    | cons m ms ih =>
      intro t
      rw [List.foldl_cons, ih, callsIn_foldl_record, callsIn_declare, List.map_cons]
      by_cases hs : s = m.signature
      · subst hs
        rw [if_pos rfl, List.count_cons_self, List.replicate_succ, List.flatten_cons,
          List.append_assoc]
      · rw [if_neg hs, List.count_cons_of_ne (Ne.symm hs)]
  exact key u.methods {}

theorem calls_replaceUnit (g : CallGraph) (u : SourceUnit) (s : Signature) :
    (g.replaceUnit u).calls u.path s =
      (List.replicate ((u.methods.map (·.signature)).count s) (u.calls.getD s [])).flatten := by
  have hcalls : (g.replaceUnit u).calls u.path s =
      callsIn ((g.replaceUnit u).units.getD u.path {}) s := rfl
  rw [hcalls, replaceUnit_units, Table.getD_insert, if_pos rfl, callsIn_methodTable]

/-! ### The size of the index -/

theorem length_foldl_enterIndex (cs : List IndexedCall) (index : Table Key (List IndexedCall)) :
    (cs.foldl enterIndex index).values.flatten.length =
      index.values.flatten.length + cs.length := by
  induction cs generalizing index with
  | nil => rfl
  | cons c cs ih =>
    have hstep := (Table.flatMap_update_perm (F := fun _ calls => calls) (k := c.key) (d := [])
      (f := (· ++ [c])) index rfl fun _ => .refl _).length_eq
    have hvalues : ∀ t : Table Key (List IndexedCall),
        t.values.flatten = t.entries.flatMap fun p => p.2 := by
      intro t
      rw [Table.values, List.flatMap_def]
    rw [List.foldl_cons, ih, hvalues, hvalues, enterIndex, hstep, List.length_append,
      List.length_cons, List.length_cons]
    simp only [List.length_nil]
    omega

/-- The calls that a source brings, method by method. -/
def broughtCalls (u : SourceUnit) : List Expr :=
  u.methods.flatMap fun m => u.calls.getD m.signature []

/-- All calls of a source come into the index. -/
theorem map_call_indexedCalls {u : SourceUnit} (hu : CallsOnly u) :
    (indexedCalls u).map (·.call) = broughtCalls u := by
  rw [indexedCalls, broughtCalls, List.map_flatMap]
  refine List.flatMap_congr fun m _ => ?_
  rw [List.map_filterMap]
  refine Eq.trans (List.filterMap_congr fun e he => ?_) List.filterMap_some
  obtain ⟨es, hes, he⟩ := Table.exists_mem_values_of_mem_getD he
  obtain ⟨site, hsite⟩ := Option.isSome_iff_exists.1 (isSome_ofExpr? (hu es hes e he))
  rw [indexed?, hsite]
  rfl

theorem calls_stats_replaceUnit {g : CallGraph} {u : SourceUnit} (hu : CallsOnly u)
    (hg : u.path ∉ g.unitPaths) :
    (g.replaceUnit u).stats.calls = g.stats.calls + (broughtCalls u).length := by
  have hstats : (g.replaceUnit u).stats.calls = (g.replaceUnit u).index.values.flatten.length := rfl
  rw [hstats, replaceUnit_index, removeUnit_of_not_contains hg, length_foldl_enterIndex,
    ← map_call_indexedCalls hu, List.length_map]
  rfl

/-! ### Sources that list calls for their methods -/

/-- The source lists calls for the signatures of its methods and no others, each once. -/
structure ListsMethods (u : SourceUnit) : Prop where
  nodup : u.calls.keys.Nodup
  keys : ∀ s, s ∈ u.calls.keys ↔ s ∈ u.methods.map (·.signature)

theorem flatten_values_eq {κ α : Type} [DecidableEq κ] {t : Table κ (List α)} (ht : t.keys.Nodup) :
    t.values.flatten = t.keys.flatMap fun k => t.getD k [] := by
  rw [Table.values, Table.keys, List.flatMap_map, ← List.flatMap_def]
  refine List.flatMap_congr fun p hp => ?_
  rw [Table.getD_of_get? (Table.get?_of_mem_entries ht hp)]

namespace ListsMethods

variable {u : SourceUnit} (h : ListsMethods u)

include h

/-- A signature without a method has no calls. -/
theorem getD_eq_nil {s : Signature} (hs : (u.methods.map (·.signature)).count s = 0) :
    u.calls.getD s [] = [] :=
  Table.getD_of_not_mem (fun hk => List.count_eq_zero.1 hs ((h.keys s).1 hk)) []

/-- The signatures of the methods are those with calls listed, and the repeated ones. -/
theorem signatures_perm :
    (u.methods.map (·.signature)).Perm
      (u.calls.keys ++ (u.methods.map (·.signature)).diff u.calls.keys) := by
  refine (List.subperm_append_diff_self_of_count_le fun s hs => ?_).symm
  rw [List.count_eq_one_of_mem h.nodup hs]
  exact List.count_pos_iff.2 ((h.keys s).1 hs)

/-- What a source brings beyond the calls that it lists comes from repeated signatures. -/
theorem broughtCalls_perm :
    (broughtCalls u).Perm (u.calls.values.flatten ++
      ((u.methods.map (·.signature)).diff u.calls.keys).flatMap fun s => u.calls.getD s []) := by
  have hbrought : broughtCalls u =
      (u.methods.map (·.signature)).flatMap fun s => u.calls.getD s [] := by
    rw [broughtCalls, List.flatMap_map]
  rw [hbrought, flatten_values_eq h.nodup, ← List.flatMap_append]
  exact h.signatures_perm.flatMap_right _

theorem mem_diff_iff {s : Signature} :
    s ∈ (u.methods.map (·.signature)).diff u.calls.keys ↔
      1 < (u.methods.map (·.signature)).count s := by
  have hcount := h.signatures_perm.count_eq s
  rw [List.count_append] at hcount
  rw [← List.count_pos_iff]
  by_cases hs : s ∈ u.calls.keys
  · rw [List.count_eq_one_of_mem h.nodup hs] at hcount
    omega
  · have hnone : (u.methods.map (·.signature)).count s = 0 :=
      List.count_eq_zero.2 fun hmem => hs ((h.keys s).2 hmem)
    omega

theorem length_broughtCalls_eq_iff :
    (broughtCalls u).length = u.callCount ↔
      ∀ s, 1 < (u.methods.map (·.signature)).count s → u.calls.getD s [] = [] := by
  rw [h.broughtCalls_perm.length_eq, List.length_append, SourceUnit.callCount, Nat.add_eq_left,
    List.length_eq_zero_iff, List.flatMap_eq_nil_iff]
  exact forall_congr' fun s => imp_congr h.mem_diff_iff Iff.rfl

end ListsMethods

/-! ### Units that were read -/

theorem keys_foldl_update (new : List (Method × List Expr)) (t : Table Signature (List Expr))
    (ht : t.keys.Nodup) :
    (new.foldl (fun t m => t.update m.1.signature [] (· ++ m.2)) t).keys.Nodup ∧
      ∀ s, s ∈ (new.foldl (fun t m => t.update m.1.signature [] (· ++ m.2)) t).keys ↔
        s ∈ t.keys ∨ s ∈ new.map (·.1.signature) := by
  induction new generalizing t with
  | nil => exact ⟨ht, by simp⟩
  | cons m new ih =>
    obtain ⟨hnodup, hmem⟩ := ih (t.update m.1.signature [] (· ++ m.2))
      (Table.nodup_keys_insert ht _ _)
    refine ⟨hnodup, fun s => ?_⟩
    rw [List.foldl_cons, hmem, Table.update, Table.mem_keys_insert, List.map_cons, List.mem_cons,
      or_assoc]

/-- A unit that was read lists calls for its methods. -/
theorem listsMethods_unitOf {directive path text : String} {tree : Java.Tree} {hasErrors : Bool}
    {u : SourceUnit} (h : Java.unitOf directive path text tree hasErrors = .ok u) :
    ListsMethods u := by
  unfold Java.unitOf Java.unitOfTree at h
  cases hread : (Java.readUnit (.ofText path text) tree).run {} with
  | error f => simp [hread] at h
  | ok p =>
    simp only [hread, Except.ok.injEq] at h
    subst h
    -- before the second pass there were neither methods nor calls
    have hcontents := Java.contents_collected (.ofText path text) tree
    obtain ⟨new, -, hmethods, hcalls⟩ := (Java.adds_readUnit hread).methods
    rw [show (Java.collected (.ofText path text) tree).methods = [] from
      congrArg (·.2.2.1) hcontents, List.nil_append] at hmethods
    rw [show (Java.collected (.ofText path text) tree).methodCalls = {} from
      congrArg (·.2.2.2) hcontents] at hcalls
    obtain ⟨hnodup, hkeys⟩ := keys_foldl_update new {} List.nodup_nil
    rw [← hcalls] at hnodup hkeys
    refine ⟨hnodup, fun s => (hkeys s).trans ?_⟩
    rw [hmethods, List.map_map]
    simp [Table.keys]

/-- What the graph knows of the calls of a unit that has entered, when it did not hold its path
before. -/
structure TakesIn (g : CallGraph) (u : SourceUnit) : Prop where
  /-- The calls of a signature are there once for each method that is declared with it. -/
  calls : ∀ s, (g.replaceUnit u).calls u.path s =
    (List.replicate ((u.methods.map (·.signature)).count s) (u.calls.getD s [])).flatten
  /-- They are those that the unit lists, exactly if there are none or one method has it. -/
  calls_eq_iff : ∀ s, (g.replaceUnit u).calls u.path s = u.calls.getD s [] ↔
    (1 < (u.methods.map (·.signature)).count s → u.calls.getD s [] = [])
  /-- The index grows by the number of calls of the unit, exactly if that is so for all. -/
  count_eq_iff : (g.replaceUnit u).stats.calls = g.stats.calls + u.callCount ↔
    ∀ s, 1 < (u.methods.map (·.signature)).count s → u.calls.getD s [] = []
  /-- No call is lost. -/
  count_le : g.stats.calls + u.callCount ≤ (g.replaceUnit u).stats.calls
  /-- If no two methods share a signature, no call is doubled, in the graph, in the index and in
  what a check goes through. -/
  distinct : Distinct u →
    (∀ s, (g.replaceUnit u).calls u.path s = u.calls.getD s []) ∧
    (g.replaceUnit u).stats.calls = g.stats.calls + u.callCount ∧
    (((g.replaceUnit u).methods u.path).flatMap fun m =>
      (g.replaceUnit u).calls u.path m.signature).Perm u.calls.values.flatten

/-- Copies of a list are the list exactly if there is one of them, or nothing to copy. -/
theorem flatten_replicate_eq_iff {α : Type} {n : Nat} {l : List α} (h : n = 0 → l = []) :
    (List.replicate n l).flatten = l ↔ (1 < n → l = []) := by
  constructor
  · intro heq hn
    have hlength := congrArg List.length heq
    rw [List.length_flatten, List.map_replicate, List.sum_replicate_nat] at hlength
    by_contra hne
    have hpos := List.length_pos_iff.2 hne
    have hlt : 1 * l.length < n * l.length := Nat.mul_lt_mul_of_pos_right hn hpos
    omega
  · intro hmany
    match n with
    | 0 => rw [h rfl]; rfl
    | 1 => simp
    | n + 2 => simp [hmany (by omega)]

theorem methods_replaceUnit_of_distinct (g : CallGraph) {u : SourceUnit} (h : Distinct u) :
    (g.replaceUnit u).methods u.path = u.methods := by
  rw [methods, replaceUnit_units, Table.getD_insert, if_pos rfl, Table.values,
    methodTable_of_distinct h, List.map_map, List.map_map]
  exact List.map_id _

theorem distinct_iff {u : SourceUnit} :
    Distinct u ↔ ∀ s, ¬1 < (u.methods.map (·.signature)).count s := by
  rw [Distinct, List.nodup_iff_count_le_one]
  exact forall_congr' fun s => Nat.not_lt.symm

/-- **Calls enter the graph once for each declaration**, for every unit that can be read and every
graph that does not hold its path.  So no call is lost, and none is doubled unless two methods of the
unit share a signature. -/
theorem calls_enter_once_per_declaration {directive path text : String} {tree : Java.Tree}
    {hasErrors : Bool} {u : SourceUnit}
    (h : Java.unitOf directive path text tree hasErrors = .ok u) {g : CallGraph}
    (hg : path ∉ g.unitPaths) : TakesIn g u := by
  obtain ⟨rfl, hgrounded⟩ := Java.grounded_unitOf h
  have hlists := listsMethods_unitOf h
  have honly : CallsOnly u := fun es hes e he => (hgrounded.calls es hes e he).isCall
  have hcount := calls_stats_replaceUnit honly hg
  have hcalls_iff : ∀ s, (g.replaceUnit u).calls u.path s = u.calls.getD s [] ↔
      (1 < (u.methods.map (·.signature)).count s → u.calls.getD s [] = []) := by
    intro s
    rw [calls_replaceUnit]
    exact flatten_replicate_eq_iff hlists.getD_eq_nil
  have hcount_iff : (g.replaceUnit u).stats.calls = g.stats.calls + u.callCount ↔
      ∀ s, 1 < (u.methods.map (·.signature)).count s → u.calls.getD s [] = [] := by
    rw [hcount, Nat.add_left_cancel_iff, hlists.length_broughtCalls_eq_iff]
  constructor
  case calls => exact calls_replaceUnit g u
  case calls_eq_iff => exact hcalls_iff
  case count_eq_iff => exact hcount_iff
  case count_le =>
    rw [hcount, hlists.broughtCalls_perm.length_eq, List.length_append]
    exact Nat.add_le_add_left (Nat.le_add_right _ _) _
  case distinct =>
    intro hdistinct
    have hnone := distinct_iff.1 hdistinct
    have hcalls : ∀ s, (g.replaceUnit u).calls u.path s = u.calls.getD s [] :=
      fun s => (hcalls_iff s).2 fun hmany => absurd hmany (hnone s)
    have hdiff : (u.methods.map (·.signature)).diff u.calls.keys = [] :=
      List.eq_nil_iff_forall_not_mem.2 fun s hs => hnone s (hlists.mem_diff_iff.1 hs)
    refine ⟨hcalls, hcount_iff.2 fun s hmany => absurd hmany (hnone s), ?_⟩
    simp only [methods_replaceUnit_of_distinct g hdistinct, hcalls]
    have hperm := hlists.broughtCalls_perm
    rwa [hdiff, List.flatMap_nil, List.append_nil] at hperm

/-- A unit whose methods call each other. -/
def callingEachOther : String :=
  "class A \x7b void f() \x7b g(); \x7d void g() \x7b f(); f(); \x7d \x7d"

theorem calls_of_callingEachOther_enter_once :
    ∃ u, Java.unitOf "" "A.java" callingEachOther (Java.treeOf callingEachOther) false = .ok u ∧
      "A.java" ∉ empty.unitPaths ∧ (empty.replaceUnit u).stats.calls = u.callCount := by
  have hok : (Java.unitOf "" "A.java" callingEachOther (Java.treeOf callingEachOther)
      false).toOption.any (fun u => decide (u.methods.map (·.signature)).Nodup) = true := by
    decide +kernel
  cases h : Java.unitOf "" "A.java" callingEachOther (Java.treeOf callingEachOther) false with
  | error f =>
    rw [h] at hok
    cases hok
  | ok u =>
    rw [h] at hok
    change decide (u.methods.map Method.signature).Nodup = true at hok
    have hdistinct : (u.methods.map Method.signature).Nodup := of_decide_eq_true hok
    have hnew : "A.java" ∉ empty.unitPaths := by decide
    refine ⟨u, rfl, hnew, ?_⟩
    rw [((calls_enter_once_per_declaration h hnew).distinct hdistinct).2.1]
    exact Nat.zero_add _

/-- A record with a constructor for its components and one without parameters. -/
def twoConstructors : String :=
  "record R(int x) \x7b R \x7b f(); \x7d R() \x7b this(0); \x7d \x7d"

/-- **A shared signature doubles calls.**  The two constructors have one signature, for which the
unit lists one call.  The graph has it twice. -/
theorem shared_signature_doubles_calls :
    (Java.unitOf "" "R.java" twoConstructors (Java.treeOf twoConstructors) false).toOption.map
      (fun u => (u.methods.map (·.signature), (u.calls.getD ⟨"R", "R", []⟩ []).map (·.text),
        ((empty.replaceUnit u).calls "R.java" ⟨"R", "R", []⟩).map (·.text), u.callCount,
        (empty.replaceUnit u).stats.calls)) =
    some ([⟨"R", "R", []⟩, ⟨"R", "R", []⟩], ["f()"], ["f()", "f()"], 1, 2) := by
  decide +kernel

end CallGraph

end TaintFlow
