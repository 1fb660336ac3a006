import TaintFlow.Proofs.CallGraph.Occurrence
import TaintFlow.Proofs.CallGraph.SourceOrder
import TaintFlow.Proofs.Findings
import TaintFlow.Proofs.Flow.Exposure

/-!
# The order of sources does not decide verdicts

In graphs of the same sources a trace makes the same moves, except that where it spreads over the
callers of a method it finds them in another order.  This holds where every call matches one
declaration at most.  Spreading in another order exposes the same, in another order.

* `Move.Shuffled` : two moves that differ in the order of their targets.
* `Alike` : two results that differ in the order of what they expose, or two failures.
* `shuffled_turn` : the turns of a trace in two graphs of the same sources.
* `alike_trace` : what the traces expose.
* `verdicts_independent_of_source_order` : what comes of checking a sink.
-/

namespace TaintFlow.Flow

open TaintFlow.Code TaintFlow.Catalog

/-! ### Results in another order -/

/-- Both results expose the same, in whatever order, or both fail. -/
inductive Alike : Except Fault (List Exposure) → Except Fault (List Exposure) → Prop
  | ok {xs ys : List Exposure} (h : xs.Perm ys) : Alike (.ok xs) (.ok ys)
  | error (f f' : Fault) : Alike (.error f) (.error f')

namespace Alike

variable {x x' x'' y y' : Except Fault (List Exposure)}

theorem refl (x : Except Fault (List Exposure)) : Alike x x := by
  cases x with
  | ok xs => exact .ok (.refl xs)
  | error f => exact .error f f

theorem trans (h : Alike x x') (h' : Alike x' x'') : Alike x x'' := by
  cases h with
  | ok h => cases h' with | ok h' => exact .ok (h.trans h')
  | error f _ => cases h' with | error _ f' => exact .error f f'

/-- One result after the other. -/
def both (x y : Except Fault (List Exposure)) : Except Fault (List Exposure) :=
  x >>= fun xs => y.map (xs ++ ·)

theorem append (hx : Alike x x') (hy : Alike y y') : Alike (both x y) (both x' y') := by
  cases hx with
  | error f f' => exact .error f f'
  | ok hx =>
    cases hy with
    | error f f' => exact .error f f'
    | ok hy => exact .ok (hx.append hy)

theorem append_comm (x y z : Except Fault (List Exposure)) :
    Alike (both x (both y z)) (both y (both x z)) := by
  cases x with
  | error f => cases y <;> exact .error f _
  | ok xs =>
    cases y with
    | error f => exact .error f f
    | ok ys =>
      cases z with
      | error f => exact .error f f
      | ok zs => exact .ok (List.perm_append_comm_assoc xs ys zs)

end Alike

section

variable {α : Type} {f f' : α → Except Fault (List Exposure)}

theorem flatten_mapM_cons (t : α) (ts : List α) :
    ((t :: ts).mapM f).map List.flatten = Alike.both (f t) ((ts.mapM f).map List.flatten) := by
  rw [List.mapM_cons, Alike.both]
  cases f t with
  | error fault => rfl
  | ok xs => cases ts.mapM f <;> rfl

theorem alike_mapM {ts : List α} (h : ∀ t ∈ ts, Alike (f t) (f' t)) :
    Alike ((ts.mapM f).map List.flatten) ((ts.mapM f').map List.flatten) := by
  induction ts with
  | nil => exact .refl _
  | cons t ts ih =>
    rw [flatten_mapM_cons, flatten_mapM_cons]
    exact (h t List.mem_cons_self).append (ih fun t ht => h t (List.mem_cons_of_mem _ ht))

theorem alike_mapM_of_perm {ts ts' : List α} (h : ts.Perm ts') :
    Alike ((ts.mapM f).map List.flatten) ((ts'.mapM f).map List.flatten) := by
  induction h with
  | nil => exact .refl _
  | cons t _ ih =>
    rw [flatten_mapM_cons, flatten_mapM_cons]
    exact (Alike.refl (f t)).append ih
  | swap t t' ts =>
    rw [flatten_mapM_cons, flatten_mapM_cons, flatten_mapM_cons, flatten_mapM_cons]
    exact .append_comm _ _ _
  | trans _ _ ih ih' => exact ih.trans ih'

end

/-! ### Moves in another order -/

/-- The moves are the same, except for the order in which they spread. -/
inductive Move.Shuffled : Move → Move → Prop
  | refl (m : Move) : Shuffled m m
  | spread (hops : ℕ) {ts ts' : List (Except Fault (Option Expr))} (h : ts.Perm ts') :
    Shuffled (.spread hops ts) (.spread hops ts')

theorem Move.Shuffled.exposures {m m' : Move} (h : m.Shuffled m') {path : List Expr}
    {go go' : ℕ → Option Expr → Except Fault (List Exposure)}
    (hgo : ∀ k t, (k, t) ∈ m.targets → Alike (go k t) (go' k t)) :
    Alike (m.exposures path go) (m'.exposures path go') := by
  have hsame : Alike (m.exposures path go) (m.exposures path go') := by
    cases m with
    | stop v => exact .refl _
    | fail f => exact .refl _
    | follow k t => exact hgo k t List.mem_cons_self
    | spread k ts =>
      refine alike_mapM fun t ht => ?_
      cases t with
      | error f => exact .refl _
      | ok a => exact hgo k a (mem_targets_spread.2 ⟨rfl, ht⟩)
  cases h with
  | refl => exact hsame
  | spread k hperm => exact hsame.trans (alike_mapM_of_perm hperm)

/-! ### Traces in graphs of the same sources -/

/-- Every call of a method that occurs in the graph of the sources, on a type that is known, matches
one of their declarations at most. -/
def Unambiguous (us : List SourceUnit) : Prop :=
  ∀ call, IsInvocation call → (CallGraph.ofSources us).Occurs call →
    CallGraph.calledOn? call ≠ none → CallGraph.MatchesOnce us call

section

variable {us us' : List SourceUnit} (hus : CallGraph.Separate us) (hperm : us.Perm us')
  (honce : Unambiguous us) (catalog : Catalog) (trusted : TrustedLines) (maxDepth : ℕ)

include hus hperm honce

theorem shuffled_move {e : Expr} (he : (CallGraph.ofSources us).Occurs e) :
    (move ⟨.ofSources us, catalog, trusted, maxDepth⟩ e).Shuffled
      (move ⟨.ofSources us', catalog, trusted, maxDepth⟩ e) := by
  cases e with
  | name n =>
    simp only [move, moveName, CallGraph.valueOf_of_perm hus hperm]
    cases (CallGraph.ofSources us').valueOf n with
    | some value => exact .refl _
    | none =>
      cases n.parameter? with
      | none => exact .refl _
      | some p => exact .spread 1 ((CallGraph.invokers_of_perm hus hperm p.1).map _)
  | call o method receiver args rt type =>
    simp only [move, moveCall, CallGraph.resolve_of_perm hus hperm (honce _ .intro he)]
    exact .refl _
  | _ => exact .refl _

/-- **The turns of a trace** in two graphs of the same sources differ in the order of targets. -/
theorem shuffled_turn (rule : Rule) (depth : ℤ) {e : Expr}
    (he : (CallGraph.ofSources us).Occurs e) :
    (turn ⟨.ofSources us, catalog, trusted, maxDepth⟩ rule depth e).Shuffled
      (turn ⟨.ofSources us', catalog, trusted, maxDepth⟩ rule depth e) := by
  unfold turn
  split_ifs
  · exact .refl _
  · exact .refl _
  · exact .refl _
  · exact shuffled_move hus hperm honce catalog trusted maxDepth he

/-- **The traces** in two graphs of the same sources expose the same, in whatever order. -/
theorem alike_trace (rule : Rule) :
    ∀ (depth : ℤ) (e : Option Expr), (∀ x ∈ e, (CallGraph.ofSources us).Occurs x) →
      ∀ r : Record, r.Fresh →
        Alike ((trace ⟨.ofSources us, catalog, trusted, maxDepth⟩ rule depth r e).map
            Record.exposures)
          ((trace ⟨.ofSources us', catalog, trusted, maxDepth⟩ rule depth r e).map
            Record.exposures) := by
  refine calls_induction ⟨.ofSources us, catalog, trusted, maxDepth⟩ rule
    fun depth e ih he r hr => ?_
  cases e with
  | none =>
    rw [exposures_trace_none depth hr, exposures_trace_none depth hr]
    exact .refl _
  | some e =>
    rw [exposures_trace depth e hr, exposures_trace depth e hr]
    refine (shuffled_turn hus hperm honce catalog trusted maxDepth rule depth
      (he e rfl)).exposures fun k t ht => ?_
    refine ih _ _ (.intro ht) (fun x hx => ?_) _ (fresh_joined hr e)
    -- the move leads to a part of the expression, or to where a hop can arrive
    rw [(turn_eq_move ht).2.2.2] at ht
    rcases targets_move ht with ⟨-, hpart⟩ | ⟨-, hlanding⟩
    · exact (he e rfl).of_mem_parts (hpart x hx)
    · exact CallGraph.occurs_of_mem_landings (hlanding x hx)

end

/-- The records say the same of one parameter of a sink: whether it is vulnerable, and by which
paths, of what kinds and with what messages. -/
structure SameVerdict (r r' : Record) : Prop where
  sink : r.sink = r'.sink
  parameter : r.parameter = r'.parameter
  vulnerable : r.isVulnerable = r'.isVulnerable
  exposures : r.exposures.Perm r'.exposures

theorem isVulnerable_eq_of_perm {r r' : Record} (h : r.exposures.Perm r'.exposures) :
    r.isVulnerable = r'.isVulnerable := by
  rw [Record.isVulnerable_eq_exposures, Record.isVulnerable_eq_exposures, h.isEmpty_eq]

/-- What holds of two checks of a parameter holds of the two checks of a sink. -/
theorem checkSink_pair {E E' : Engine} {call : Expr} {exit : ExitPoint}
    {R : Record → Record → Prop}
    (h : ∀ p, (∃ f f', Verify.traceParameter E call p = .error f ∧
        Verify.traceParameter E' call p = .error f') ∨
      ∃ r r', Verify.traceParameter E call p = .ok r ∧ Verify.traceParameter E' call p = .ok r' ∧
        R r r') :
    (∃ f f', checkSink E call exit = .error f ∧ checkSink E' call exit = .error f') ∨
      ∃ rs rs', checkSink E call exit = .ok rs ∧ checkSink E' call exit = .ok rs' ∧
        List.Forall₂ R rs rs' := by
  rw [Verify.checkSink_eq_mapM, Verify.checkSink_eq_mapM]
  induction Verify.concerns exit with
  | nil => exact .inr ⟨[], [], rfl, rfl, .nil⟩
  | cons p ps ih =>
    rw [List.mapM_cons, List.mapM_cons]
    rcases h p with ⟨f, f', hf, hf'⟩ | ⟨r, r', hr, hr', hR⟩
    · exact .inl ⟨f, f', by rw [hf]; rfl, by rw [hf']; rfl⟩
    · rcases ih with ⟨f, f', hf, hf'⟩ | ⟨rs, rs', hrs, hrs', hall⟩
      · exact .inl ⟨f, f', by rw [hr, hf]; rfl, by rw [hr', hf']; rfl⟩
      · exact .inr ⟨r :: rs, r' :: rs', by rw [hr, hrs]; rfl, by rw [hr', hrs']; rfl,
          .cons hR hall⟩

/-- **The order of sources does not decide verdicts**, when they are kept apart and calls match one
declaration at most.  In graphs of the same sources, the check of a recorded call fails in both or
in neither, and then each parameter is vulnerable in both or in neither, by the same vulnerable
paths with the same kinds and messages.  It fails in neither when the expressions are regular. -/
theorem verdicts_independent_of_source_order (us us' : List SourceUnit) (hperm : us.Perm us')
    (hus : CallGraph.Separate us) (honce : Unambiguous us) (catalog : Catalog)
    (trusted : TrustedLines) (maxDepth : ℕ) (call : Expr)
    (hcall : call ∈ (CallGraph.ofSources us).recordedCalls) (exit : ExitPoint) :
    ((∃ f f', checkSink ⟨.ofSources us, catalog, trusted, maxDepth⟩ call exit = .error f ∧
        checkSink ⟨.ofSources us', catalog, trusted, maxDepth⟩ call exit = .error f') ∨
      ∃ records records',
        checkSink ⟨.ofSources us, catalog, trusted, maxDepth⟩ call exit = .ok records ∧
        checkSink ⟨.ofSources us', catalog, trusted, maxDepth⟩ call exit = .ok records' ∧
        List.Forall₂ SameVerdict records records') ∧
    ((∀ x ∈ (CallGraph.ofSources us).landings, x.Regular) → (∀ a ∈ call.arguments, a.Regular) →
      ∃ records,
        checkSink ⟨.ofSources us, catalog, trusted, maxDepth⟩ call exit = .ok records) := by
  constructor
  · refine checkSink_pair fun p => ?_
    have hargument : ∀ x ∈ call.arguments[p.2]?, (CallGraph.ofSources us).Occurs x := fun x hx =>
      (CallGraph.occurs_of_mem_recordedCalls hcall).of_mem_arguments (List.mem_of_getElem? hx)
    have halike := alike_trace hus hperm honce catalog trusted maxDepth p.1 0 _ hargument
      { sink := some call, parameter := some p.2 } ⟨rfl, rfl⟩
    unfold Verify.traceParameter
    cases htrace : trace ⟨.ofSources us, catalog, trusted, maxDepth⟩ p.1 0
        { sink := some call, parameter := some p.2 } call.arguments[p.2]? with
    | error f =>
      cases htrace' : trace ⟨.ofSources us', catalog, trusted, maxDepth⟩ p.1 0
          { sink := some call, parameter := some p.2 } call.arguments[p.2]? with
      | error f' => exact .inl ⟨f, f', rfl, rfl⟩
      | ok r' => rw [htrace, htrace'] at halike; cases halike
    | ok r =>
      cases htrace' : trace ⟨.ofSources us', catalog, trusted, maxDepth⟩ p.1 0
          { sink := some call, parameter := some p.2 } call.arguments[p.2]? with
      | error f' => rw [htrace, htrace'] at halike; cases halike
      | ok r' =>
        rw [htrace, htrace'] at halike
        cases halike with
        | ok hexposures =>
          obtain ⟨hsink, hparameter⟩ := sink_of_mem_walk 0 _ _ _ ⟨rfl, rfl⟩ htrace r
            (Record.mem_walk.2 (.inl rfl))
          obtain ⟨hsink', hparameter'⟩ := sink_of_mem_walk 0 _ _ _ ⟨rfl, rfl⟩ htrace' r'
            (Record.mem_walk.2 (.inl rfl))
          exact .inr ⟨r, r', rfl, rfl, hsink.trans hsink'.symm,
            hparameter.trans hparameter'.symm, isVulnerable_eq_of_perm hexposures, hexposures⟩
  · intro hlandings harguments
    obtain ⟨records, hok, -⟩ := traceArguments_judges (E := ⟨.ofSources us, catalog, trusted,
      maxDepth⟩) hlandings harguments exit.rules 0
    exact ⟨records, hok⟩

/-- The parameter of a method of type `T`. -/
def workerParameter : Name where
  origin := ⟨"p", "A.java", 2, 5⟩
  identifier := "p"
  binding := some
    { unit := "A.java", name := "p", kind := .parameter, owner := some ⟨"T", "work", ["String"]⟩,
      index := 0 }

/-- A call of a sink with the parameter. -/
def workerSink : Expr :=
  .call ⟨"run(p)", "A.java", 2, 1⟩ "run" none [.name workerParameter] none none

/-- A source with the method that hands its parameter to the sink. -/
def worker : SourceUnit where
  path := "A.java"
  methods := [⟨⟨"T", "work", ["String"]⟩, ⟨"A.java", 1, 0⟩, ["p"], none, none, false⟩]
  calls := ⟨[(⟨"T", "work", ["String"]⟩, [workerSink])]⟩

/-- A call of that method with what another call yields. -/
def workCall (path method : String) : Expr :=
  .call ⟨"work", path, 2, 1⟩ "work" none [plainCall method] (some "T") none

/-- A source with such a call. -/
def client (path method : String) : SourceUnit where
  path := path
  methods := [⟨⟨"U", "main", []⟩, ⟨path, 1, 0⟩, [], none, none, false⟩]
  calls := ⟨[(⟨"U", "main", []⟩, [workCall path method])]⟩

/-- A worker and two units that call it. -/
def clients : List SourceUnit :=
  [worker, client "B.java" "read", client "C.java" "fetch"]

theorem unambiguous_clients : Unambiguous clients := by
  have hall : ∀ e, (CallGraph.ofSources clients).Occurs e →
      e ∈ [workerSink, .name workerParameter, workCall "B.java" "read", plainCall "read",
        workCall "C.java" "fetch", plainCall "fetch"] := by
    intro e he
    refine he.closed (P := fun e => e ∈ _) ?_ ?_
    · have hexpressions : (CallGraph.ofSources clients).expressions =
          [workerSink, workCall "B.java" "read", workCall "C.java" "fetch",
            workerSink, workCall "B.java" "read", workCall "C.java" "fetch"] := rfl
      rw [hexpressions]
      simp
    · simp [Expr.components, Expr.operands, workerSink, workCall, plainCall]
  -- of the declarations only the worker's fits a call on its type
  have honly : ∀ path method, ∀ u ∈ clients, ∀ m ∈ u.methods,
      CallGraph.calls? m.signature (workCall path method) = true →
        u.path = "A.java" ∧ m.signature = ⟨"T", "work", ["String"]⟩ := by
    intro path method u hu m hm hfits
    simp only [clients, List.mem_cons, List.not_mem_nil, or_false] at hu
    rcases hu with rfl | rfl | rfl
    · exact ⟨rfl, by rw [List.mem_singleton.1 hm]⟩
    · rw [List.mem_singleton.1 hm] at hfits
      cases hfits
    · rw [List.mem_singleton.1 hm] at hfits
      cases hfits
  intro call _ hoccurs htype
  have hmem := hall call hoccurs
  simp only [List.mem_cons, List.not_mem_nil, or_false] at hmem
  have hcall : ∃ path method, call = workCall path method := by
    rcases hmem with rfl | rfl | rfl | rfl | rfl | rfl
    · exact absurd rfl htype
    · exact absurd rfl htype
    · exact ⟨_, _, rfl⟩
    · exact absurd rfl htype
    · exact ⟨_, _, rfl⟩
    · exact absurd rfl htype
  obtain ⟨path, method, rfl⟩ := hcall
  intro u hu m hm u' hu' m' hm' hfits hfits'
  obtain ⟨hpath, hsignature⟩ := honly path method u hu m hm hfits
  obtain ⟨hpath', hsignature'⟩ := honly path method u' hu' m' hm' hfits'
  exact ⟨hpath.trans hpath'.symm, hsignature.trans hsignature'.symm⟩

/-- The sink is reached from both units, in whatever order they came: only the order of what is
exposed tells the graphs apart. -/
theorem verdicts_clients :
    ∃ records records',
      checkSink ⟨.ofSources clients, taintedValue.catalog, {}, 10⟩ workerSink
          ⟨⟨"Db", "run", ["String"]⟩, [{}]⟩ = .ok records ∧
        checkSink ⟨.ofSources clients.reverse, taintedValue.catalog, {}, 10⟩ workerSink
          ⟨⟨"Db", "run", ["String"]⟩, [{}]⟩ = .ok records' ∧
        records.map (fun r => r.exposures.map Prod.snd) =
          [[.vulnerable .entryPoint "Entry point method: Reader.read",
            .vulnerable .unknown "unresolvable call: fetch"]] ∧
        records'.map (fun r => r.exposures.map Prod.snd) =
          [[.vulnerable .unknown "unresolvable call: fetch",
            .vulnerable .entryPoint "Entry point method: Reader.read"]] ∧
        List.Forall₂ SameVerdict records records' := by
  have hus : CallGraph.Separate clients := by
    refine ⟨by decide, fun u hu => ?_, fun u hu => ?_⟩
    · simp only [clients, List.mem_cons, List.not_mem_nil, or_false] at hu
      rcases hu with rfl | rfl | rfl <;> exact nofun
    · simp only [clients, List.mem_cons, List.not_mem_nil, or_false] at hu
      rcases hu with rfl | rfl | rfl <;> exact List.nodup_singleton _
  have hcall : workerSink ∈ (CallGraph.ofSources clients).recordedCalls := .head _
  obtain ⟨h, -⟩ := verdicts_independent_of_source_order clients clients.reverse
    (List.reverse_perm _).symm hus unambiguous_clients taintedValue.catalog {} 10 workerSink hcall
    ⟨⟨"Db", "run", ["String"]⟩, [{}]⟩
  rcases h with ⟨f, f', hf, -⟩ | ⟨records, records', hok, hok', hsame⟩
  · cases hf
  · refine ⟨records, records', hok, hok', ?_, ?_, hsame⟩
    · cases hok
      rfl
    · cases hok'
      rfl

end TaintFlow.Flow
