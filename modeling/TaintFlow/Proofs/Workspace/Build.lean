import TaintFlow.Proofs.Verify
import TaintFlow.Proofs.Workspace.Rebuild

/-!
# Building is updating file by file

A build goes through files and updates the workspace with each of them, as long as its token lets
it.

* `run_induction` : what updates keep, a build keeps, whether it is cancelled or not.
* `run_eq_updates` : without a token, a build from texts at hand is the run of their updates.
-/

namespace TaintFlow.Workspace.Build

open TaintFlow.Code TaintFlow.Files

section

variable {ε : Type} (read : UnitReader ε) (fs : FileSystem) (endings : List String)

/-! ### Turns -/

theorem run_of_spent {b : Build} (h : b.cancellation.Spent) (paths : List String) :
    run read fs endings paths b = b := by
  cases paths with
  | nil => rfl
  | cons path paths =>
    rw [run, Cancellation.poll_of_spent h]
    rfl

theorem run_of_not_spent {b : Build} (h : ¬ b.cancellation.Spent) (path : String)
    (paths : List String) :
    run read fs endings (path :: paths) b =
      run read fs endings paths
        (if hasEnding endings path then
          step read fs { b with cancellation := b.cancellation.poll.2 } path
        else { b with cancellation := b.cancellation.poll.2 }) := by
  rw [run, Cancellation.poll_of_not_spent h]
  simp only [Bool.false_eq_true, if_false]
  split <;> rfl

/-- The workspace after one file has one message more, or the file is updated. -/
theorem workspace_step (b : Build) (path : String) :
    (∃ message, (b.step read fs path).workspace = b.workspace.addError message) ∨
      ∃ text, (b.step read fs path).workspace = (b.workspace.update read path text).1 := by
  unfold step text
  cases b.texts.get? path with
  | some text => exact .inr ⟨text, rfl⟩
  | none =>
    cases fs.read path with
    | error f => exact .inl ⟨_, rfl⟩
    | ok bytes => exact .inr ⟨_, rfl⟩

/-- **What messages and updates keep** is kept by a build, cancelled or not. -/
theorem run_induction {P : Workspace → Prop} {paths : List String}
    (herror : ∀ w message, P w → P (w.addError message))
    (hupdate : ∀ w text, ∀ path ∈ paths, P w → P (w.update read path text).1)
    {b : Build} (h : P b.workspace) : P (run read fs endings paths b).workspace := by
  induction paths generalizing b with
  | nil => exact h
  | cons path paths ih =>
    by_cases hspent : b.cancellation.Spent
    · rwa [run_of_spent read fs endings hspent]
    · rw [run_of_not_spent read fs endings hspent]
      refine ih (fun w text p hp => hupdate w text p (List.mem_cons_of_mem _ hp)) ?_
      split
      · rcases workspace_step read fs { b with cancellation := b.cancellation.poll.2 } path with
          ⟨message, heq⟩ | ⟨text, heq⟩
        · rw [heq]
          exact herror _ _ h
        · rw [heq]
          exact hupdate _ _ _ List.mem_cons_self h
      · exact h

/-! ### Without a token -/

theorem isSome_update (w : Workspace) (path text : String) :
    (w.update read path text).2.isSome = (read path text).isOk := by
  unfold update
  cases read path text <;> rfl

theorem step_of_text {b : Build} {path text : String} (h : b.texts.get? path = some text) :
    b.step read fs path =
      { b with
        workspace := (Edit.update path text).apply read b.workspace
        updated := b.updated ++ if (read path text).isOk then [path] else [] } := by
  unfold step Build.text
  rw [h]
  simp only [isSome_update, Edit.apply]
  split
  · rfl
  · rw [List.append_nil]

/-- **A build from texts at hand**, without a token, is the run of their updates. -/
theorem run_eq_updates (text : String → String) {paths : List String} {b : Build}
    (hending : ∀ path ∈ paths, hasEnding endings path = true)
    (htext : ∀ path ∈ paths, b.texts.get? path = some (text path))
    (hnever : b.cancellation = .never) :
    run read fs endings paths b =
      { b with
        workspace := (paths.map fun path => Edit.update path (text path)).foldl (Edit.apply read)
          b.workspace
        updated := b.updated ++ paths.filter fun path => (read path (text path)).isOk } := by
  induction paths generalizing b with
  | nil => simp [run]
  | cons path paths ih =>
    have hspent : ¬ b.cancellation.Spent := hnever ▸ Cancellation.not_spent_never
    have hpoll : b.cancellation.poll.2 = b.cancellation := by
      rw [hnever]
      rfl
    rw [run_of_not_spent read fs endings hspent, hpoll, if_pos (hending path List.mem_cons_self),
      step_of_text read fs (htext path List.mem_cons_self)]
    refine (ih ?_ ?_ ?_).trans ?_
    · exact fun p hp => hending p (List.mem_cons_of_mem _ hp)
    · exact fun p hp => htext p (List.mem_cons_of_mem _ hp)
    · exact hnever
    · rw [List.map_cons, List.foldl_cons, List.filter_cons, List.append_assoc]
      split <;> rfl

end

end TaintFlow.Workspace.Build
