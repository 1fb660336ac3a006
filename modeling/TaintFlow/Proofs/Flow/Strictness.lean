import TaintFlow.Proofs.Flow.Chain
import TaintFlow.Proofs.Flow.Exposure

/-!
# Stricter settings find no less

Settings are stricter than others when they accept fewer categories, trust fewer lines, know fewer
sanitization points, know more entry points or look further.  Two traces under such settings differ
in shape: an entry point ends a path early, and a sanitization point or a trusted line that is gone
opens a whole tree.  Still they can be compared turn by turn.

* `Stricter.move_cases` : under stricter settings a move stays what it was, unless it ended the path
  as safe or has come to end it as vulnerable.
* `isVulnerable_of_stricter` : so what is vulnerable stays vulnerable.
* `exposures_sublist_of_le` : what is exposed with fewer hops is, in order, part of what is exposed
  with more.
-/

namespace TaintFlow.Flow

open TaintFlow.Code TaintFlow.Catalog

/-- The settings `F` and `rule'` are at least as strict as `E` and `rule`. -/
structure Stricter (E : Engine) (rule : Rule) (F : Engine) (rule' : Rule) : Prop where
  graph : F.graph = E.graph
  accepted : rule'.accepted ⊆ rule.accepted
  ignore : rule'.ignore = true → rule.ignore = true
  trusted : ∀ unit, F.trusted.lines.getD unit [] ⊆ E.trusted.lines.getD unit []
  sanitizationPoints : F.catalog.sanitizationPoints ⊆ E.catalog.sanitizationPoints
  entryPoints : E.catalog.entryPoints ⊆ F.catalog.entryPoints
  maxDepth : E.maxDepth ≤ F.maxDepth

namespace Stricter

variable {E F : Engine} {rule rule' : Rule} (h : Stricter E rule F rule')

include h

theorem accepts_eq_false {e : Expr} (ha : rule.accepts e = false) : rule'.accepts e = false := by
  have hmem : ∀ n : ℤ, rule'.accepted.contains n = true → rule.accepted.contains n = true := by
    intro n hn
    exact List.contains_iff_mem.2 (h.accepted (List.contains_iff_mem.1 hn))
  rw [Rule.accepts, ← Bool.not_eq_true, Bool.or_eq_true, Bool.or_eq_true, Bool.and_eq_true] at ha ⊢
  rintro ((hignore | hkind) | ⟨hliterals, hreduces⟩)
  · exact ha (.inl (.inl (h.ignore hignore)))
  · exact ha (.inl (.inr (hmem _ hkind)))
  · exact ha (.inr ⟨hmem _ hliterals, hreduces⟩)

theorem covers_eq_false {e : Expr} (ht : E.trusted.covers e = false) :
    F.trusted.covers e = false := by
  rw [TrustedLines.covers, ← Bool.not_eq_true, List.contains_iff_mem] at ht ⊢
  exact fun hmem => ht (h.trusted _ hmem)

theorem sanitizationPoint?_eq_none {call : Expr} (hs : E.catalog.sanitizationPoint? call = none) :
    F.catalog.sanitizationPoint? call = none := by
  rw [Catalog.sanitizationPoint?, List.find?_eq_none] at hs ⊢
  exact fun p hp => hs p (h.sanitizationPoints hp)

theorem exists_entryPoint? {call : Expr} {p : Pattern} (hp : E.catalog.entryPoint? call = some p) :
    ∃ p', F.catalog.entryPoint? call = some p' := by
  have hfits := List.find?_some hp
  exact Option.isSome_iff_exists.1 (List.find?_isSome.2
    ⟨p, h.entryPoints (List.mem_of_find?_eq_some hp), hfits⟩)

/-- **The step.**  Under stricter settings a move stays what it was, unless it ended the path as
safe or has come to end it as vulnerable. -/
theorem move_cases (e : Expr) :
    move E e = .stop .safe ∨ (∃ kind message, move F e = .stop (.vulnerable kind message)) ∨
      move F e = move E e := by
  cases e with
  | name n =>
    refine .inr (.inr ?_)
    simp only [move, moveName, h.graph]
  | call o method receiver args rt type =>
    have hcall : IsInvocation (.call o method receiver args rt type) := .intro
    change moveCall E _ method = _ ∨ _ ∨ moveCall F _ method = moveCall E _ method
    generalize Expr.call o method receiver args rt type = call at hcall
    rcases moveCall_cases E call method with
      hm | ⟨hs, ⟨p, hp, -⟩ | ⟨hp, ⟨m, body, hres, hbody, -⟩ | ⟨hbody, -⟩⟩⟩
    · exact .inl hm
    · obtain ⟨p', hp'⟩ := h.exists_entryPoint? hp
      exact .inr (.inl (source_iff_move.1 (.entry hcall (h.sanitizationPoint?_eq_none hs) hp')))
    · have hs' := h.sanitizationPoint?_eq_none hs
      cases hp' : F.catalog.entryPoint? call with
      | some p' => exact .inr (.inl (source_iff_move.1 (.entry hcall hs' hp')))
      | none =>
        refine .inr (.inr ?_)
        simp only [moveCall, hs, hs', hp, hp', h.graph]
    · rw [← h.graph] at hbody
      exact .inr (.inl (source_iff_move.1
        (.unresolved hcall (h.sanitizationPoint?_eq_none hs) hbody)))
  | _ => exact .inr (.inr rfl)

theorem turn_of_open {depth : ℤ} {e : Expr} (ha : rule.accepts e = false)
    (hd : depth < E.maxDepth) (ht : E.trusted.covers e = false) :
    turn F rule' depth e = move F e :=
  Flow.turn_of_open (h.accepts_eq_false ha) (hd.trans_le (Int.ofNat_le.2 h.maxDepth))
    (h.covers_eq_false ht)

end Stricter

/-- Where a move that is carried out leads, the trace comes to a record. -/
theorem exists_of_perform {go : ℕ → Hop} {m : Move} {r r' : Record} (hr : r.Fresh)
    (h : perform go m r = .ok r') {k : ℕ} {t : Option Expr} (ht : (k, t) ∈ m.targets) :
    ∃ c, go k r t = .ok c := by
  cases m with
  | stop v => cases ht
  | follow hops target =>
    obtain ⟨rfl, rfl⟩ := Prod.mk.inj (List.mem_singleton.1 ht)
    exact ⟨r', h⟩
  | fail f => cases ht
  | spread hops ts =>
    obtain ⟨rfl, hts⟩ := mem_targets_spread.1 ht
    obtain ⟨cs, hcs, -⟩ := (perform_spread_eq_ok_iff hr.pending (List.ne_nil_of_mem hts)).1 h
    obtain ⟨c, -, a, ha, hca⟩ := exists_right_of_forall₂ hcs hts
    cases ha
    exact ⟨c, hr.child_eq ▸ hca⟩

section

variable {E F : Engine} {rule rule' : Rule}

theorem isVulnerable_of_trace_none {depth : ℤ} {r r' : Record} (hr : r.Fresh)
    (h : trace E rule depth r none = .ok r') : r'.isVulnerable = false := by
  rw [trace_none, Record.close_of_pending hr.pending] at h
  cases h
  rw [Record.isVulnerable_eq_exposures, hr.exposures_closed]
  rfl

/-- **What is vulnerable stays vulnerable** under stricter settings. -/
theorem isVulnerable_of_stricter (h : Stricter E rule F rule') :
    ∀ (depth : ℤ) (e : Option Expr) (r s r' s' : Record), r.Fresh → s.Fresh →
      trace E rule depth r e = .ok r' → trace F rule' depth s e = .ok s' →
        r'.isVulnerable = true → s'.isVulnerable = true := by
  refine calls_induction E rule fun depth e ih r s r' s' hr hs hr' hs' hv => ?_
  cases e with
  | none => exact absurd hv (by simp [isVulnerable_of_trace_none hr hr'])
  | some e =>
    have hrj : (joined rule e r).Fresh := fresh_joined hr e
    have hsj : (joined rule' e s).Fresh := fresh_joined hs e
    rw [trace_of_pending hr.pending] at hr'
    rw [trace_of_pending hs.pending] at hs'
    have hvr := (isVulnerable_perform_iff hrj hr').1 hv
    refine (isVulnerable_perform_iff hsj hs').2 ?_
    rcases turn_cases E rule depth e with ⟨v, hsafe, hstop⟩ | ⟨ha, hd, ht, hmove⟩
    · -- the path ends here, and not as vulnerable
      rw [hstop] at hvr
      obtain ⟨_, _, ⟨⟩⟩ | ⟨_, _, _, ⟨⟩, -⟩ := hvr
      cases hsafe
    · rw [h.turn_of_open ha hd ht] at hs' ⊢
      rw [hmove] at hvr
      rcases h.move_cases e with hsafe | hvulnerable | hsame
      · rw [hsafe] at hvr
        obtain ⟨_, _, ⟨⟩⟩ | ⟨_, _, _, ⟨⟩, -⟩ := hvr
      · exact .inl hvulnerable
      · rw [hsame] at hs' ⊢
        refine hvr.imp id ?_
        rintro ⟨k, t, c, htarget, hc, hcv⟩
        obtain ⟨c', hc'⟩ := exists_of_perform hsj hs' htarget
        exact ⟨k, t, c', htarget, hc',
          ih _ _ (.intro (hmove ▸ htarget)) _ _ _ _ hrj hsj hc hc' hcv⟩

/-- **More hops expose more.**  What is exposed with fewer hops is, in order, part of what is
exposed with more. -/
theorem exposures_sublist_of_le {D : ℕ} (h : E.maxDepth ≤ D) :
    ∀ (depth : ℤ) (e : Option Expr) (r : Record) (xs ys : List Exposure), r.Fresh →
      (trace E rule depth r e).map Record.exposures = .ok xs →
      (trace { E with maxDepth := D } rule depth r e).map Record.exposures = .ok ys →
        xs.Sublist ys := by
  have hstricter : Stricter E rule { E with maxDepth := D } rule :=
    ⟨rfl, List.Subset.refl _, id, fun _ => List.Subset.refl _, List.Subset.refl _,
      List.Subset.refl _, h⟩
  refine calls_induction E rule fun depth e ih r xs ys hr hxs hys => ?_
  cases e with
  | none =>
    rw [exposures_trace_none depth hr] at hxs
    cases hxs
    exact List.nil_sublist _
  | some e =>
    rw [exposures_trace depth e hr] at hxs hys
    rcases turn_cases E rule depth e with ⟨v, hsafe, hstop⟩ | ⟨ha, hd, ht, hmove⟩
    · rw [hstop, Move.exposures_stop_eq_nil hsafe] at hxs
      cases hxs
      exact List.nil_sublist _
    · -- hops are left, so they are left with more of them, and the move is the same
      rw [hmove] at hxs
      rw [hstricter.turn_of_open ha hd ht, show move { E with maxDepth := D } e = move E e from rfl]
        at hys
      exact Move.exposures_sublist (fun k t htarget xs ys => ih _ _ (.intro (hmove ▸ htarget)) _ xs
        ys (fresh_joined hr e)) hxs hys

end

/-- **Stricter settings find no less.**  If the record of a trace is vulnerable, so is the record of
the same trace under stricter settings.  For regular expressions there are such records.  When only
the number of hops is raised, the vulnerable paths are kept in their order, with their verdicts. -/
theorem stricter_finds_no_less (E : Engine) (rule : Rule) (depth : ℤ) (e : Option Expr) (r : Record)
    (hr : r.Fresh) :
    (∀ F rule', Stricter E rule F rule' → ∀ r₁ r₂, trace E rule depth r e = .ok r₁ →
      trace F rule' depth r e = .ok r₂ → r₁.isVulnerable = true → r₂.isVulnerable = true) ∧
    (∀ D, E.maxDepth ≤ D → ∀ r₁ r₂, trace E rule depth r e = .ok r₁ →
      trace { E with maxDepth := D } rule depth r e = .ok r₂ →
        r₁.exposures.Sublist r₂.exposures) ∧
    ((∀ x ∈ E.graph.landings, x.Regular) → (∀ x ∈ e, x.Regular) →
      ∀ F rule', Stricter E rule F rule' →
        ∃ r₁ r₂, trace E rule depth r e = .ok r₁ ∧ trace F rule' depth r e = .ok r₂) := by
  refine ⟨fun F rule' h r₁ r₂ h₁ h₂ => isVulnerable_of_stricter h depth e r r r₁ r₂ hr hr h₁ h₂,
    fun D hD r₁ r₂ h₁ h₂ => ?_, fun hE he F rule' h => ?_⟩
  · exact exposures_sublist_of_le hD depth e r _ _ hr (by rw [h₁]; rfl) (by rw [h₂]; rfl)
  · obtain ⟨r₁, h₁⟩ := @exists_trace E rule hE depth e he r hr.pending
    obtain ⟨r₂, h₂⟩ := @exists_trace F rule' (h.graph ▸ hE) depth e he r hr.pending
    exact ⟨r₁, r₂, h₁, h₂⟩

/-- Settings with a trusted line and a sanitization point, under which two hops are made. -/
def lenient : Engine where
  graph := taintedValue.graph
  catalog :=
    { taintedValue.catalog with sanitizationPoints := [⟨"Filter", "clean", []⟩] }
  trusted := TrustedLines.empty.add "A.java" 7
  maxDepth := 2

/-- Settings with one more entry point, under which more hops are made and nothing is trusted. -/
def unforgiving : Engine where
  graph := taintedValue.graph
  catalog :=
    { taintedValue.catalog with entryPoints := [⟨"Source", "load", []⟩, ⟨"Reader", "read", []⟩] }
  maxDepth := 5

/-- A tainted variable is found vulnerable under the lenient settings and so under the others; it is
not when a single hop is made. -/
theorem unforgiving_finds_taintedValue :
    Stricter lenient .literalOnly unforgiving {} ∧
      (∃ r, trace lenient .literalOnly 0 {} (some (.name (localName "x"))) = .ok r ∧
        r.isVulnerable = true) ∧
      (∃ r, trace unforgiving {} 0 {} (some (.name (localName "x"))) = .ok r ∧
        r.isVulnerable = true) ∧
      ∃ r, trace { lenient with maxDepth := 1 } .literalOnly 0 {}
        (some (.name (localName "x"))) = .ok r ∧ r.isVulnerable = false := by
  have hstricter : Stricter lenient .literalOnly unforgiving {} :=
    ⟨rfl, List.nil_subset _, nofun, fun _ => List.nil_subset _, List.nil_subset _,
      List.subset_cons_self _ _, by decide⟩
  obtain ⟨hvulnerable, -, -⟩ := stricter_finds_no_less lenient .literalOnly 0
    (some (.name (localName "x"))) {} ⟨rfl, rfl⟩
  exact ⟨hstricter, ⟨_, rfl, rfl⟩, ⟨_, rfl, hvulnerable _ _ hstricter _ _ rfl rfl rfl⟩,
    ⟨_, rfl, rfl⟩⟩

end TaintFlow.Flow
