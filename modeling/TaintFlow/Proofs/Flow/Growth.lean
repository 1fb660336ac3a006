import TaintFlow.Proofs.Flow.Address

/-!
# How a tree of records grows

A tree grows by actions on its records: one is extended, branched or closed, in any order and
anywhere in the tree.  An action on a closed record fails or does nothing.  The *face* of a record
is what there is to see of it without looking into its children: all that it says itself, and how
many children it has.

* `after_eq_modifyAt` : an attempt at an action changes the tree at its address only, and there as
  the action changes the record alone.
* `exists_face_grow` : **actions are local**.  Whatever is done to a tree, the face of a record in
  it is the one that the actions on this record alone give.
* `exists_branching` : every record below the root of a tree that has grown from a fresh record was
  branched off an open record, and goes on from the path that this record had then.
-/

namespace TaintFlow.Flow

open TaintFlow.Code

/-- What can be done to a record. -/
inductive Action where
  | append (e : Expr)
  | branch
  /-- To close a record is to give it a verdict. -/
  | close (verdict : Verdict) (final : verdict.isFinal = true)

/-- Does the action to a record. -/
def Action.on : Action → Record → Except Closed Record
  | append e, r => r.append e
  | branch, r => r.branch.map r.addChild
  | close v _, r => .ok (r.close v)

/-- An attempt to do something to the record at an address. -/
structure Attempt where
  address : List ℕ
  action : Action

/-- Makes the attempt in a tree.  Where there is no record there is nothing to do. -/
def Attempt.on (s : Attempt) (tree : Record) : Except Closed Record :=
  match tree.at? s.address with
  | none => .ok tree
  | some r => (s.action.on r).map fun r' => tree.modifyAt (fun _ => r') s.address

namespace Record

/-- The record after an action; one that fails changes nothing. -/
def undergo (r : Record) (action : Action) : Record :=
  (action.on r).toOption.getD r

/-- The tree after an attempt; one that fails changes nothing. -/
def after (tree : Record) (s : Attempt) : Record :=
  (s.on tree).toOption.getD tree

/-- The tree after some attempts. -/
def grow (tree : Record) (steps : List Attempt) : Record :=
  steps.foldl after tree

/-- What the record says itself, and the number of its children. -/
def face (r : Record) : Record × ℕ :=
  ({ r with children := [] }, r.children.length)

/-! ### Actions on one record -/

theorem isClosed_eq_false_iff {r : Record} : r.isClosed = false ↔ r.verdict = .pending := by
  rw [isClosed]
  cases r.verdict <;> simp [Verdict.isFinal]

theorem append_of_closed {r : Record} (h : r.isClosed = true) (e : Expr) :
    r.append e = .error (.extend r.verdict) :=
  if_pos h

theorem branch_of_closed {r : Record} (h : r.isClosed = true) :
    r.branch = .error (.branch r.verdict) :=
  if_pos h

/-- Nothing happens to a closed record any more. -/
theorem undergo_of_closed {r : Record} (h : r.isClosed = true) (action : Action) :
    r.undergo action = r := by
  cases action with
  | append e => rw [undergo, Action.on, append_of_closed h]; rfl
  | branch => rw [undergo, Action.on, branch_of_closed h]; rfl
  | close v hv => exact if_pos h

theorem undergo_append {r : Record} (h : r.verdict = .pending) (e : Expr) :
    r.undergo (.append e) = { r with path := r.path ++ [e] } := by
  rw [undergo, Action.on, append_of_pending h]; rfl

theorem undergo_branch {r : Record} (h : r.verdict = .pending) :
    r.undergo .branch = r.addChild r.child := by
  rw [undergo, Action.on, branch_of_pending h]; rfl

theorem undergo_close {r : Record} (h : r.verdict = .pending) (v : Verdict)
    (hv : v.isFinal = true) : r.undergo (.close v hv) = { r with verdict := v } := by
  rw [undergo, Action.on, close_of_pending h]; rfl

/-- A path only ever grows at its end, and children are only ever added after those that there are. -/
theorem undergo_extends (r : Record) (action : Action) :
    r.path <+: (r.undergo action).path ∧ r.children <+: (r.undergo action).children := by
  cases hr : r.isClosed with
  | true =>
    rw [undergo_of_closed hr]
    exact ⟨List.prefix_rfl, List.prefix_rfl⟩
  | false =>
    have hp := isClosed_eq_false_iff.1 hr
    cases action with
    | append e =>
      rw [undergo_append hp]
      exact ⟨⟨[e], rfl⟩, List.prefix_rfl⟩
    | branch =>
      rw [undergo_branch hp]
      exact ⟨List.prefix_rfl, ⟨[r.child], rfl⟩⟩
    | close v hv =>
      rw [undergo_close hp]
      exact ⟨List.prefix_rfl, List.prefix_rfl⟩

theorem verdict_eq_of_face_eq {r x : Record} (h : r.face = x.face) : r.verdict = x.verdict :=
  congrArg (fun p => p.1.verdict) h

theorem path_eq_of_face_eq {r x : Record} (h : r.face = x.face) : r.path = x.path :=
  congrArg (fun p => p.1.path) h

/-- What an action makes of the face of a record depends on the face only. -/
theorem face_undergo_congr {r x : Record} (h : r.face = x.face) (action : Action) :
    (r.undergo action).face = (x.undergo action).face := by
  have hv : r.verdict = x.verdict := verdict_eq_of_face_eq h
  cases hr : r.isClosed with
  | true =>
    have hx : x.isClosed = true := by rwa [isClosed, ← hv]
    rw [undergo_of_closed hr, undergo_of_closed hx, h]
  | false =>
    have hp := isClosed_eq_false_iff.1 hr
    have hp' : x.verdict = .pending := hv ▸ hp
    cases r
    cases x
    simp only [face, Prod.mk.injEq, Record.mk.injEq, and_true] at h
    obtain ⟨⟨rfl, rfl, rfl, rfl⟩, hlen⟩ := h
    cases action with
    | append e => rw [undergo_append hp, undergo_append hp']; simp [face, hlen]
    | branch => rw [undergo_branch hp, undergo_branch hp']; simp [face, addChild, hlen]
    | close v hv => rw [undergo_close hp, undergo_close hp']; simp [face, hlen]

theorem face_foldl_undergo_congr {r x : Record} (h : r.face = x.face) (actions : List Action) :
    (actions.foldl undergo r).face = (actions.foldl undergo x).face := by
  induction actions generalizing r x with
  | nil => exact h
  | cons action actions ih => exact ih (face_undergo_congr h action)

theorem foldl_undergo_of_closed {r : Record} (h : r.isClosed = true) (actions : List Action) :
    actions.foldl undergo r = r := by
  induction actions with
  | nil => rfl
  | cons action actions ih => rw [List.foldl_cons, undergo_of_closed h, ih]

theorem path_prefix_foldl_undergo (r : Record) (actions : List Action) :
    r.path <+: (actions.foldl undergo r).path := by
  induction actions generalizing r with
  | nil => exact List.prefix_rfl
  | cons action actions ih => exact (undergo_extends r action).1.trans (ih _)

/-! ### Changes at an address -/

theorem at?_append (tree : Record) (a b : List ℕ) :
    tree.at? (a ++ b) = (tree.at? a).bind (·.at? b) := by
  induction a generalizing tree with
  | nil => rfl
  | cons i a ih =>
    rw [List.cons_append, at?, at?, Option.bind_assoc]
    simp only [ih]

theorem at?_modifyAt_self (f : Record → Record) (a : List ℕ) (tree : Record) :
    (tree.modifyAt f a).at? a = (tree.at? a).map f := by
  induction a generalizing tree with
  | nil => rfl
  | cons i a ih =>
    rw [modifyAt, at?, at?]
    change ((tree.children.modify i (modifyAt f a))[i]?).bind _ = _
    rw [List.getElem?_modify_eq]
    cases tree.children[i]? with
    | none => rfl
    | some c => exact ih c

/-- A change at an address shows nowhere else in the tree, except below it. -/
theorem map_face_at?_modifyAt (f : Record → Record) {a b : List ℕ} (h : ¬ a <+: b)
    (tree : Record) : ((tree.modifyAt f a).at? b).map face = (tree.at? b).map face := by
  induction a generalizing b tree with
  | nil => exact absurd List.nil_prefix h
  | cons i a ih =>
    cases b with
    | nil => simp [modifyAt, at?, face]
    | cons j b =>
      rw [modifyAt, at?, at?]
      change (((tree.children.modify i (modifyAt f a))[j]?).bind _).map face = _
      by_cases hij : i = j
      · subst hij
        rw [List.getElem?_modify_eq]
        cases tree.children[i]? with
        | none => rfl
        | some c => exact ih (fun hab => h (List.cons_prefix_cons.2 ⟨rfl, hab⟩)) c
      · rw [List.getElem?_modify_ne _ _ hij]

theorem modifyAt_congr {f g : Record → Record} {a : List ℕ} {tree : Record}
    (h : ∀ r, tree.at? a = some r → f r = g r) : tree.modifyAt f a = tree.modifyAt g a := by
  induction a generalizing tree with
  | nil => exact h tree rfl
  | cons i a ih =>
    rw [modifyAt, modifyAt]
    congr 1
    refine List.ext_getElem? fun j => ?_
    by_cases hij : i = j
    · subst hij
      rw [List.getElem?_modify_eq, List.getElem?_modify_eq]
      cases hc : tree.children[i]? with
      | none => rfl
      | some c =>
        refine congrArg some (ih fun r hr => h r ?_)
        rw [at?, hc]
        exact hr
    · rw [List.getElem?_modify_ne _ _ hij, List.getElem?_modify_ne _ _ hij]

/-- A change that is none at the address is none at all. -/
theorem modifyAt_eq_self {f : Record → Record} {a : List ℕ} {tree : Record}
    (h : ∀ r, tree.at? a = some r → f r = r) : tree.modifyAt f a = tree := by
  have hid : ∀ tree : Record, tree.modifyAt id a = tree := by
    clear h
    induction a with
    | nil => exact fun _ => rfl
    | cons i a ih =>
      rintro ⟨_, _, _, _, _⟩
      rw [modifyAt, funext ih]
      exact congrArg _ (List.modify_id ..)
  exact (modifyAt_congr h).trans (hid tree)

/-- **An attempt is local**: it changes the tree at its address, and there as the action changes the
record alone. -/
theorem after_eq_modifyAt (tree : Record) (s : Attempt) :
    tree.after s = tree.modifyAt (·.undergo s.action) s.address := by
  rw [after, Attempt.on]
  cases hr : tree.at? s.address with
  | none =>
    have hsame : tree.modifyAt (·.undergo s.action) s.address = tree := by
      refine modifyAt_eq_self fun x hx => ?_
      rw [hr] at hx
      cases hx
    rw [hsame]
    rfl
  | some r =>
    have hat : ∀ x, tree.at? s.address = some x → x = r := by
      intro x hx
      rw [hr] at hx
      exact (Option.some.inj hx).symm
    cases ha : s.action.on r with
    | error c =>
      have hsame : tree.modifyAt (·.undergo s.action) s.address = tree := by
        refine modifyAt_eq_self fun x hx => ?_
        rw [hat x hx, undergo, ha]; rfl
      rw [hsame]
      simp only [ha]
      rfl
    | ok r' =>
      simp only [ha]
      refine modifyAt_congr fun x hx => ?_
      rw [hat x hx, undergo, ha]; rfl

/-! ### Attempts in a tree -/

/-- The actions that are attempted at an address. -/
def actionsAt (b : List ℕ) (steps : List Attempt) : List Action :=
  (steps.filter (·.address = b)).map (·.action)

theorem actionsAt_cons_self (s : Attempt) (steps : List Attempt) :
    actionsAt s.address (s :: steps) = s.action :: actionsAt s.address steps := by
  simp [actionsAt]

theorem actionsAt_cons_of_ne {b : List ℕ} {s : Attempt} (h : s.address ≠ b)
    (steps : List Attempt) : actionsAt b (s :: steps) = actionsAt b steps := by
  simp [actionsAt, h]

/-- A record whose address is not that of an attempt keeps its face. -/
theorem exists_face_after_of_ne {tree x : Record} {b : List ℕ} {s : Attempt}
    (h : tree.at? b = some x) (hne : s.address ≠ b) :
    ∃ x', (tree.after s).at? b = some x' ∧ x'.face = x.face := by
  rw [after_eq_modifyAt]
  by_cases hab : s.address <+: b
  · -- below the address, the children are where they were
    obtain ⟨rest, rfl⟩ := hab
    rw [at?_append] at h ⊢
    obtain ⟨r, hr, hx⟩ := Option.bind_eq_some_iff.1 h
    rw [at?_modifyAt_self, hr]
    cases rest with
    | nil => exact absurd (List.append_nil _).symm hne
    | cons i rest =>
      refine ⟨x, ?_, rfl⟩
      obtain ⟨c, hc, hcx⟩ := Option.bind_eq_some_iff.1 hx
      obtain ⟨new, hnew⟩ := (undergo_extends r s.action).2
      change (r.undergo s.action).children[i]?.bind _ = _
      rw [← hnew, List.getElem?_append_left (List.getElem?_eq_some_iff.1 hc).1, hc]
      exact hcx
  · have hface := map_face_at?_modifyAt (·.undergo s.action) hab tree
    rw [h] at hface
    exact Option.map_eq_some_iff.1 hface

theorem at?_after_self {tree x : Record} {s : Attempt} (h : tree.at? s.address = some x) :
    (tree.after s).at? s.address = some (x.undergo s.action) := by
  rw [after_eq_modifyAt, at?_modifyAt_self, h]; rfl

/-- **Actions are local.**  Whatever is done to a tree, the face of a record in it is the one that
the actions on this record alone give. -/
theorem exists_face_grow {tree x : Record} {b : List ℕ} (h : tree.at? b = some x)
    (steps : List Attempt) :
    ∃ x', (tree.grow steps).at? b = some x' ∧
      x'.face = ((actionsAt b steps).foldl undergo x).face := by
  induction steps generalizing tree x with
  | nil => exact ⟨x, h, rfl⟩
  | cons s steps ih =>
    by_cases hb : s.address = b
    · subst hb
      rw [actionsAt_cons_self]
      exact ih (at?_after_self h)
    · obtain ⟨x₁, hx₁, hface₁⟩ := exists_face_after_of_ne h hb
      obtain ⟨x', hx', hface⟩ := ih hx₁
      rw [actionsAt_cons_of_ne hb]
      exact ⟨x', hx', hface.trans (face_foldl_undergo_congr hface₁ _)⟩

/-- A closed record stands fast: the attempt fails or does nothing. -/
theorem after_of_closed {tree r : Record} {s : Attempt} (h : tree.at? s.address = some r)
    (hr : r.isClosed = true) : tree.after s = tree := by
  rw [after_eq_modifyAt]
  refine modifyAt_eq_self fun x hx => ?_
  rw [h] at hx
  cases hx
  exact undergo_of_closed hr s.action

theorem on_append_of_closed {tree r : Record} {a : List ℕ} (h : tree.at? a = some r)
    (hr : r.isClosed = true) (e : Expr) :
    (Attempt.mk a (.append e)).on tree = .error (.extend r.verdict) := by
  simp only [Attempt.on, h, Action.on, append_of_closed hr]
  rfl

theorem on_branch_of_closed {tree r : Record} {a : List ℕ} (h : tree.at? a = some r)
    (hr : r.isClosed = true) :
    (Attempt.mk a .branch).on tree = .error (.branch r.verdict) := by
  simp only [Attempt.on, h, Action.on, branch_of_closed hr]
  rfl

/-! ### Where records come from -/

/-- Only branching adds a record, and it adds one. -/
theorem branch_of_new {r c : Record} {action : Action} {b : List ℕ} (h : r.at? b = none)
    (hc : (r.undergo action).at? b = some c) :
    r.isClosed = false ∧ action = .branch ∧ b = [r.children.length] ∧ c = r.child := by
  cases b with
  | nil => cases h
  | cons i b =>
    rw [at?] at h hc
    cases hr : r.isClosed with
    | true => rw [undergo_of_closed hr, h] at hc; cases hc
    | false =>
      have hp := isClosed_eq_false_iff.1 hr
      cases action with
      | append e => rw [undergo_append hp, h] at hc; cases hc
      | close v hv => rw [undergo_close hp, h] at hc; cases hc
      | branch =>
        rw [undergo_branch hp] at hc
        change ((r.children ++ [r.child])[i]?).bind _ = _ at hc
        rcases Nat.lt_or_ge i r.children.length with hi | hi
        · rw [List.getElem?_append_left hi, h] at hc
          cases hc
        · rw [List.getElem?_append_right hi] at hc
          obtain ⟨d, hd, hdc⟩ := Option.bind_eq_some_iff.1 hc
          obtain ⟨hlt, rfl⟩ := List.getElem?_eq_some_iff.1 hd
          have hi' : i = r.children.length := by
            have := List.length_singleton (a := r.child)
            omega
          subst hi'
          cases b with
          | nil => exact ⟨rfl, rfl, rfl, by simpa [at?] using hdc.symm⟩
          | cons j b => simp [at?, child] at hdc

/-- A record that an attempt adds to a tree is the alternative with which a branch begins. -/
theorem branch_of_new_after {tree c : Record} {b : List ℕ} {s : Attempt}
    (h : tree.at? b = none) (hc : (tree.after s).at? b = some c) :
    ∃ r, tree.at? s.address = some r ∧ r.isClosed = false ∧ s.action = .branch ∧
      b = s.address ++ [r.children.length] ∧ c = r.child := by
  rw [after_eq_modifyAt] at hc
  by_cases hab : s.address <+: b
  · obtain ⟨rest, rfl⟩ := hab
    rw [at?_append] at h hc
    rw [at?_modifyAt_self] at hc
    cases hr : tree.at? s.address with
    | none => rw [hr] at hc; cases hc
    | some r =>
      rw [hr] at h hc
      obtain ⟨hopen, haction, hrest, hchild⟩ := branch_of_new h hc
      exact ⟨r, rfl, hopen, haction, by rw [hrest], hchild⟩
  · have hface := map_face_at?_modifyAt (·.undergo s.action) hab tree
    rw [h, hc] at hface
    cases hface

theorem Fresh.at?_concat {r : Record} (h : r.Fresh) (a : List ℕ) (i : ℕ) :
    r.at? (a ++ [i]) = none := by
  cases a with
  | nil => rw [List.nil_append, at?, h.childless]; rfl
  | cons j a => rw [List.cons_append, at?, h.childless]; rfl

theorem grow_append (tree : Record) (steps steps' : List Attempt) :
    tree.grow (steps ++ steps') = (tree.grow steps).grow steps' :=
  List.foldl_append

/-- **Where records come from.**  In a tree that has grown from a fresh record, every record below
the root was branched off an open record; it began with the path that this record had then, and its
face is due to the actions on it alone. -/
theorem exists_branching {start : Record} (hstart : start.Fresh) (steps : List Attempt)
    {a : List ℕ} {i : ℕ} {c : Record} (hc : (start.grow steps).at? (a ++ [i]) = some c) :
    ∃ before later r, steps = before ++ ⟨a, .branch⟩ :: later ∧
      (start.grow before).at? a = some r ∧ r.isClosed = false ∧ r.children.length = i ∧
      c.face = ((actionsAt (a ++ [i]) later).foldl undergo r.child).face := by
  induction steps using List.reverseRecOn generalizing c with
  | nil =>
    rw [grow, List.foldl_nil, hstart.at?_concat] at hc
    cases hc
  | append_singleton steps s ih =>
    rw [grow_append] at hc
    change ((start.grow steps).after s).at? (a ++ [i]) = some c at hc
    cases hx : (start.grow steps).at? (a ++ [i]) with
    | some x =>
      obtain ⟨before, later, r, rfl, hr, hopen, hlen, hface⟩ := ih hx
      refine ⟨before, later ++ [s], r, by simp, hr, hopen, hlen, ?_⟩
      obtain ⟨c', hc', hface'⟩ := exists_face_grow hx [s]
      change ((start.grow _).after s).at? (a ++ [i]) = some c' at hc'
      rw [hc] at hc'
      cases hc'
      rw [hface', face_foldl_undergo_congr hface, ← List.foldl_append, actionsAt, actionsAt,
        actionsAt, List.filter_append, List.map_append]
    | none =>
      obtain ⟨r, hr, hopen, haction, hab, rfl⟩ := branch_of_new_after hx hc
      obtain ⟨haddress, hi⟩ := List.append_inj' hab rfl
      obtain ⟨address, action⟩ := s
      subst haddress haction
      exact ⟨steps, [], r, rfl, hr, hopen, (List.singleton_inj.1 hi).symm, rfl⟩

/-- **How trees of records grow**, from a fresh record by attempts at any of its records in any
order.

* What is closed stays as it is.  Extending it or branching it fails, and leaves the whole tree as it
  was.
* What is vulnerable, and nothing else, has a kind and a message.
* A record below the root goes on from the path that its parent had when it was branched off; no
  action on another record shows in it.
* A tree is vulnerable if it has witnesses, and these are its vulnerable records in depth-first
  order. -/
theorem trees_grow_at_open_records {start tree : Record} {steps : List Attempt}
    (hstart : start.Fresh) (htree : start.grow steps = tree) :
    (∀ a r, tree.at? a = some r → r.isClosed = true →
      (∀ later, ∃ r', (tree.grow later).at? a = some r' ∧ r'.face = r.face) ∧
      (∀ e, (Attempt.mk a (.append e)).on tree = .error (.extend r.verdict)) ∧
      (Attempt.mk a .branch).on tree = .error (.branch r.verdict) ∧
      ∀ action, tree.after ⟨a, action⟩ = tree) ∧
    (∀ r ∈ tree.walk, (r.verdict.kind?.isSome = true ↔ r.verdict.isVulnerable = true) ∧
      (r.verdict.message?.isSome = true ↔ r.verdict.isVulnerable = true)) ∧
    (∀ a i c, tree.at? (a ++ [i]) = some c →
      ∃ before later r, steps = before ++ ⟨a, .branch⟩ :: later ∧
        (start.grow before).at? a = some r ∧ r.isClosed = false ∧ r.children.length = i ∧
        r.path <+: c.path ∧ c.face = ((actionsAt (a ++ [i]) later).foldl undergo r.child).face) ∧
    (tree.isVulnerable = true ↔ tree.witnesses ≠ []) ∧
    ∃ as : List (List ℕ), as.Pairwise Precedes ∧
      (∀ a, a ∈ as ↔ ∃ w, tree.at? a = some w ∧ w.verdict.isVulnerable = true) ∧
      tree.witnesses.map some = as.map tree.at? := by
  refine ⟨fun a r ha hr => ⟨fun later => ?_, on_append_of_closed ha hr,
      on_branch_of_closed ha hr, fun action => after_of_closed (s := ⟨a, action⟩) ha hr⟩,
    fun r _ => ⟨Verdict.isSome_kind? _, Verdict.isSome_message? _⟩, fun a i c hc => ?_,
    isVulnerable_iff_witnesses, exists_addresses_witnesses tree⟩
  · obtain ⟨r', hr', hface⟩ := exists_face_grow ha later
    rw [foldl_undergo_of_closed hr] at hface
    exact ⟨r', hr', hface⟩
  · subst htree
    obtain ⟨before, later, r, hsteps, hr, hopen, hlen, hface⟩ := exists_branching hstart steps hc
    refine ⟨before, later, r, hsteps, hr, hopen, hlen, ?_, hface⟩
    rw [path_eq_of_face_eq hface]
    exact path_prefix_foldl_undergo r.child _

/-- A record is branched, its child closed as vulnerable, and then it goes on itself. -/
def parting : List Attempt :=
  [⟨[], .append (.textOnly ⟨"x", "A.java", 1, 1⟩)⟩, ⟨[], .branch⟩,
    ⟨[0], .close (.vulnerable .unknown "unresolvable call: f") rfl⟩,
    ⟨[], .append (.textOnly ⟨"y", "A.java", 1, 1⟩)⟩]

/-- The child keeps the path with which it was branched off, and cannot be branched. -/
theorem parting_grows :
    ∃ c, (grow {} parting).at? ([] ++ [0]) = some c ∧ c.path.length = 1 ∧
      (Attempt.mk [0] .branch).on (grow {} parting) = .error (.branch c.verdict) ∧
      ∃ before later r, parting = before ++ ⟨[], .branch⟩ :: later ∧
        (grow {} before).at? [] = some r ∧ r.path <+: c.path := by
  obtain ⟨hclosed, -, hpath, -⟩ := @trees_grow_at_open_records {} _ parting ⟨rfl, rfl⟩ rfl
  obtain ⟨-, -, hbranch, -⟩ := hclosed [0] _ rfl rfl
  obtain ⟨before, later, r, hsteps, hr, -, -, hgoes, -⟩ := hpath [] 0 _ rfl
  exact ⟨_, rfl, rfl, hbranch, before, later, r, hsteps, hr, hgoes⟩

end Record

end TaintFlow.Flow
