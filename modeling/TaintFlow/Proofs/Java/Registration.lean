import Mathlib.Data.List.Forall2
import TaintFlow.Proofs.Java.Chronicle
import TaintFlow.Proofs.Java.Visits

/-!
# Registration of calls

Inside a method, reading a node keeps one call for each of certain nodes.  This is the chronicle of the
calls (`registrations`).  Which nodes these are can be told from the script; in a tree that conforms to
the grammar they are the calls that are met in the node (`perm_readCalls`).
-/

namespace TaintFlow.Java

open TaintFlow.Code TaintFlow.Java.Tree

/-- A call is what a node was read as. -/
structure ReadAs (S : Source) (node : Tree) (call : Expr) : Prop where
  isCall : call.isCall = true
  origin : call.origin = S.origin node
  read : ∃ s s', (reading S node).asExpr.run s = .ok (call, s')

/-- Inside a method there is, of the calls that were added, one for each of the nodes. -/
def State.Registers (S : Source) (s : State) (nodes : List Tree) (s' : State) : Prop :=
  ∀ calls, s.calls = some calls →
    ∃ new, s'.calls = some (calls ++ new) ∧ List.Forall₂ (ReadAs S) nodes new

theorem State.Registers.of_eq {S : Source} {s s' : State} (h : s'.calls = s.calls) :
    s.Registers S [] s' :=
  fun calls hcalls => ⟨[], by rw [h, hcalls, List.append_nil], .nil⟩

/-- Of a call it is noted at which node it was kept, of events nothing. -/
def registrations (S : Source) : Chronicle S Tree where
  event _ := []
  call t := [t]
  Leads := State.Registers S
  nil _ := .of_eq rfl
  append h h' calls hcalls := by
    obtain ⟨new, hnew, hread⟩ := h calls hcalls
    obtain ⟨new', hnew', hread'⟩ := h' _ hnew
    exact ⟨new ++ new', by rw [hnew', List.append_assoc], List.rel_append hread hread'⟩
  opening _ := .of_eq rfl
  closing _ := .of_eq rfl
  declaration s _ := .of_eq (congrArg State.calls (s.addVariable_eq _) :)
  introduction _ _ _ := .of_eq (congrArg State.calls (State.addVariable_eq _ _) :)
  addCall s hread hcall horigin calls hcalls := by
    refine ⟨[_], ?_, .cons ⟨hcall, horigin, hread⟩ .nil⟩
    rw [State.addCall, hcalls]
    rfl

theorem tells_registrations (S : Source) (t : Tree) : (registrations S).Tells t := by
  refine Chronicle.tells_reading (fun t h => ?_) t
  have hexpr := Chronicle.follows_expr? h
  have hnone : (registrations S).notes [(.event (.assignment t) : Item t)] = [] := rfl
  rw [Chronicle.notes_append, hnone, List.append_nil, Item.exprs_append, Chronicle.notes_append]
  refine (hexpr _).bind fun left _ => (hexpr _).last fun right _ => ?_
  exact .first (.modify fun s => .of_eq (congrArg State.calls (s.assign_eq ..) :)) fun _ _ =>
    .pure trivial

/-! ### The calls that are met -/

/-- Calls are gathered where they are met. -/
def callGathering : Gathering Tree where
  of := readCalls
  inside statement t :=
    (t.visited statement).flatMap fun c => c.1.readCalls (t.readsStatement statement c.1)
  share := readShare
  of_sealed h := readCalls_of_isSealed _ (List.contains_iff_mem.2 h)
  of_empty hpieces h := by
    have hplain := (by decide : ∀ type ∈ ";" :: leafTypes, isPlainType type = true) _ h
    rw [readCalls_of_type rfl hplain, hpieces]
    rfl
  of_part h :=
    readCalls_of_type rfl ((by decide : ∀ type ∈ partTypes, isPlainType type = true) _ h) _
  inside_eq h := flatMap_visited h _
  inside_creation htype hcontent := by
    simp [visited, readsStatement, htype, hcontent, flatMap_filter_ite, ← Bool.not_eq_true]
  share_of_not_content h := by simp [readShare, h]
  share_of_visits hlambda hcontent hvisits := by
    simp [readShare, hcontent, hvisits, readsStatement, hlambda]
  share_of_skipped _ _ _ hvisits _ := by simp [readShare, hvisits]

theorem entersLambdas_callGathering : callGathering.EntersLambdas := by
  intro t c htype hcontent
  simp [callGathering, readShare, hcontent, visits, readsStatement, htype]

theorem isCall_ofType (t : Tree) : (ExprForm.ofType t.type).isCall = t.isCall := by
  have htype := ExprForm.hasType_ofType t.type
  rw [isCall]
  cases hform : ExprForm.ofType t.type with
  | creation | invocation =>
    rw [hform] at htype
    rw [show t.type = _ from htype]
    rfl
  | _ =>
    refine (Bool.eq_false_iff.2 fun h => ?_).symm
    simp only [callTypes, List.contains_iff_mem, List.mem_cons, List.not_mem_nil, or_false] at h
    rcases h with h | h <;> rw [h] at hform <;> cases hform

/-- Nothing is visited in a node in which nothing is read. -/
theorem exprScript_of_sealed {t : Tree} (h : t.type ∈ sealedTypes) : t.exprScript = [] := by
  have htype := ExprForm.hasType_ofType t.type
  unfold exprScript operands
  generalize ExprForm.ofType t.type = form at htype ⊢
  cases form with
  | literal kind => rfl
  | other =>
    have hclosed : t.isClosed = true := by
      refine List.contains_iff_mem.2 ((List.mem_append.1 h).resolve_right fun hliteral => htype ?_)
      exact (by decide : ∀ type ∈ literalTypes, type ∈ exprTypes) _ hliteral
    dsimp only
    rw [hclosed]
    rfl
  | _ =>
    rw [show t.type = _ from htype] at h
    exact absurd h (by decide)

theorem own_registrations (S : Source) {t : Tree} {mode : Mode} (hsuits : mode.Suits t) :
    (registrations S).own t mode = if t.isCall then [t] else [] := by
  cases mode with
  | expr => rw [Chronicle.own, isCall_ofType]; rfl
  | stmt =>
    have hcall := (by decide : ∀ type ∈ "identifier" :: ";" :: statementTypes,
      callTypes.contains type = false) _ hsuits
    rw [isCall, hcall]
    rfl
  | block =>
    have hcall := (by decide : ∀ type ∈ ["block", "constructor_body"],
      callTypes.contains type = false) _ hsuits
    rw [isCall, hcall]
    rfl

/-- **The calls that are kept** of a conforming node are those that are met in it. -/
theorem perm_readCalls (S : Source) {t : Tree} (hconf : t.conforms = true) {mode : Mode}
    (hsuits : mode.Suits t) : ((registrations S).of t mode).Perm (t.readCalls mode.isStatement) := by
  induction hsize : t.size using Nat.strongRecOn generalizing t mode with
  | ind n ih =>
    have hitems : ((registrations S).notes (t.script mode)).Perm
        (callGathering.ofItems (t.script mode)) := by
      refine List.Perm.flatMap_left _ fun item hitem => ?_
      have hfits := fits_script hconf hsuits item hitem
      cases item with
      | event e => exact .nil
      | visit mode c => exact ih c.1.size (hsize ▸ c.2) (hfits.1.conforms hconf) hfits.2 rfl
    rw [Chronicle.of_eq, own_registrations S hsuits]
    by_cases hsilent : t.type ∈ sealedTypes ∨ mode = .stmt ∧ t.type ∈ typeDeclarations
    · have hcall : t.isCall = false := by
        have hcall := (by decide : ∀ type ∈ sealedTypes ++ typeDeclarations,
          callTypes.contains type = false)
        exact hcall _ (List.mem_append.2 (hsilent.imp_right And.right))
      have hscript : t.script mode = [] ∧ t.readCalls mode.isStatement = [] := by
        rcases hsilent with hsealed | ⟨rfl, hdeclares⟩
        · refine ⟨?_, readCalls_of_isSealed _ (List.contains_iff_mem.2 hsealed)⟩
          cases mode with
          | expr => exact exprScript_of_sealed hsealed
          | stmt =>
            exact absurd hsuits ((by decide : ∀ type ∈ sealedTypes,
              type ∉ "identifier" :: ";" :: statementTypes) _ hsealed)
          | block =>
            exact absurd hsuits ((by decide : ∀ type ∈ sealedTypes,
              type ∉ ["block", "constructor_body"]) _ hsealed)
        · refine ⟨?_, readCalls_of_isTypeDeclaration (List.contains_iff_mem.2 hdeclares)⟩
          have hform := (by decide : ∀ type ∈ typeDeclarations,
            StmtForm.ofType type = .localType) _ hdeclares
          rw [script, stmtScript, hform]
      rw [hscript.1, hscript.2, hcall]
      exact .nil
    · rw [not_or, not_and] at hsilent
      obtain ⟨hopen, hdeclares⟩ := hsilent
      have hinside := (callGathering.matches_script hconf hsuits hopen hdeclares
        entersLambdas_callGathering).1
      rw [readCalls_eq_visited]
      · exact List.perm_append_comm.trans ((hitems.trans hinside).append_left _)
      · simpa [isSealed] using hopen
      · cases mode with
        | expr => rfl
        | stmt => simpa [isTypeDeclaration] using fun _ => hdeclares rfl
        | block =>
          exact (by decide : ∀ type ∈ ["block", "constructor_body"],
            (true && typeDeclarations.contains type) = false) _ hsuits

end TaintFlow.Java
