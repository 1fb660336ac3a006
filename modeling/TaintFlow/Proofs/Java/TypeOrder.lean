import TaintFlow.Proofs.Java.CallTyping
import TaintFlow.Proofs.Java.TypesApart
import TaintFlow.Proofs.Types.Names

/-!
# The order of the types in a unit

The first pass notes names, superclasses and headers of all types before a body is read, so a type may
be mentioned before it is declared.  Fields are noted only as the types are read: a field that is
looked for in an object is found if its type was read before, and else not.  So the order of types
matters for such fields (`field_of_later_type_unbound`) and for nothing else
(`types_read_in_any_order`).

* `sameNames_collected` : what the first pass notes does not depend on the order.
* `mem_fields_of_run` : the types whose fields are known when a type is read.
-/

namespace TaintFlow.Java

open TaintFlow.Code Read

/-! ### Trees with types in another order -/

/-- The outermost types stand in another order, and all else stands as it did. -/
structure Reordered (root root' : Tree) : Prop where
  types : (root'.children.filter Tree.isTypeDeclaration).Perm
    (root.children.filter Tree.isTypeDeclaration)
  others : root'.children.filter (!·.isTypeDeclaration) =
    root.children.filter (!·.isTypeDeclaration)

theorem Tree.map_content (t : Tree) : t.content.map (·.1) = t.children.filter isContent := by
  have hparts : t.parts.map (·.1) = t.children := by simp [parts]
  rw [content, ← hparts, List.filter_map]
  rfl

theorem Reordered.perm_types {root root' : Tree} (h : Reordered root root') :
    root'.types.Perm root.types := by
  have htypes (t : Tree) :
      t.types = (t.children.filter Tree.isTypeDeclaration).filter Tree.isContent := by
    rw [Tree.types, Tree.map_content, List.filter_filter, List.filter_filter]
    exact List.filter_congr fun c _ => Bool.and_comm _ _
  rw [htypes, htypes]
  exact h.types.filter _

/-- The tree with its outermost types at the end, the last one first. -/
def Tree.reverseTypes (root : Tree) : Tree :=
  { root with children := root.children.filter (!·.isTypeDeclaration) ++
      (root.children.filter isTypeDeclaration).reverse }

theorem reordered_reverseTypes (root : Tree) : Reordered root root.reverseTypes where
  types := by
    have hothers : (root.children.filter (!·.isTypeDeclaration)).filter Tree.isTypeDeclaration = [] := by
      simp [List.filter_filter]
    rw [Tree.reverseTypes, List.filter_append, hothers, List.nil_append, List.filter_reverse]
    simp
  others := by
    rw [Tree.reverseTypes, List.filter_append, List.filter_reverse]
    simp [List.filter_filter]

theorem readHeader_of_isTypeDeclaration (S : Source) (s : State) {t : Tree}
    (h : t.isTypeDeclaration = true) : readHeader S s t = s := by
  have hall : ∀ type ∈ typeDeclarations,
      (type == "package_declaration") = false ∧ (type == "import_declaration") = false := by decide
  obtain ⟨hpackage, himport⟩ := hall t.type (List.contains_iff_mem.1 h)
  simp [readHeader, hpackage, himport]

/-- Package and imports are told from what is no type. -/
theorem Reordered.headed_eq {root root' : Tree} (h : Reordered root root') (S : Source) :
    headed S root' = headed S root := by
  have hothers (t : Tree) : headed S t =
      ((t.children.filter (!·.isTypeDeclaration)).filter Tree.isContent).foldl (readHeader S) {} := by
    rw [headed, Tree.map_content, List.filter_filter, List.foldl_filter, List.foldl_filter]
    congr 1
    funext s c
    cases htype : c.isTypeDeclaration with
    | false => simp
    | true => simp [readHeader_of_isTypeDeclaration S s htype]
  rw [hothers, hothers, h.others]

/-! ### Types with simple names of their own -/

/-- All types, nested ones included, have simple names, and no two the same. -/
structure DistinctTypes (S : Source) (root : Tree) : Prop where
  simple : ∀ d ∈ root.types.flatMap S.declaredTypes, S.nameOf d ≠ "" ∧ '.' ∉ (S.nameOf d).toList
  distinct : ((root.types.flatMap S.declaredTypes).map S.nameOf).Nodup

theorem simpleName_javaName {package name : String} {around : Option String}
    (h : '.' ∉ name.toList) : Types.simpleName (javaName package around name) = name := by
  have hqualify (a : String) : Types.simpleName (qualify a name) = name := by
    by_cases ha : a = ""
    · subst ha
      exact (congrArg String.ofList (Types.afterLastDot_eq_self h)).trans (by simp)
    · rw [Types.simpleName, Types.toList_qualify ha, Types.afterLastDot_append h]
      simp
  cases around with
  | none => exact hqualify package
  | some a => exact hqualify a

/-- A declaration stands in a type, or is one. -/
theorem exists_type_of_declared {S : Source} {naming : Naming} {around : Option String} {t : Tree}
    (ht : t.isTypeDeclaration = true) {d : String × Tree} (hd : d ∈ declared S naming around t) :
    ∃ e ∈ declared S naming around t, e.2.isTypeDeclaration = true ∧ e.1 = d.1 := by
  induction hsize : t.size using Nat.strongRecOn generalizing t around with
  | ind n ih =>
    rw [declared_eq] at hd ⊢
    rcases List.mem_cons.1 hd with rfl | hd
    · exact ⟨_, List.mem_cons_self, ht, rfl⟩
    · obtain ⟨m, hm, hd⟩ := List.mem_flatMap.1 hd
      unfold declaredIn at hd
      split at hd
      · rename_i htype
        obtain ⟨e, he, hdeclared, heq⟩ := ih m.1.size (hsize ▸ m.2) htype hd rfl
        refine ⟨e, List.mem_cons_of_mem _ (List.mem_flatMap.2 ⟨m, hm, ?_⟩), hdeclared, heq⟩
        rwa [declaredIn, if_pos htype]
      · split at hd
        · refine ⟨_, List.mem_cons_self, ht, ?_⟩
          rw [List.mem_singleton.1 hd]
        · cases hd

namespace DistinctTypes

variable {S : Source} {root d d' : Tree} (h : DistinctTypes S root)

include h

theorem simple_of_declared (hd : d ∈ root.types) {naming : Naming} {e : String × Tree}
    (he : e ∈ declared S naming none d) (htype : e.2.isTypeDeclaration = true) :
    S.nameOf e.2 ≠ "" ∧ '.' ∉ (S.nameOf e.2).toList := by
  refine h.simple e.2 (List.mem_flatMap.2 ⟨d, hd, ?_⟩)
  rw [declaredTypes_eq S naming none]
  exact List.mem_map_of_mem (List.mem_filter.2 ⟨he, htype⟩)

theorem named : Named S (javaDeclarations S root) := by
  intro e he htype
  obtain ⟨d, hd, he⟩ := List.mem_flatMap.1 he
  exact (h.simple_of_declared hd he htype).1

/-- A simple name tells in which outermost type it is declared. -/
theorem eq_of_nameOf (hd : d ∈ root.types) (hd' : d' ∈ root.types) {naming : Naming}
    {e e' : String × Tree} (he : e ∈ declared S naming none d) (he' : e' ∈ declared S naming none d')
    (htype : e.2.isTypeDeclaration = true) (htype' : e'.2.isTypeDeclaration = true)
    (hname : S.nameOf e.2 = S.nameOf e'.2) : d = d' := by
  have hmem : ∀ {d : Tree} {e : String × Tree}, e ∈ declared S naming none d →
      e.2.isTypeDeclaration = true → S.nameOf e.2 ∈ (S.declaredTypes d).map S.nameOf := by
    intro d e he htype
    rw [declaredTypes_eq S naming none, List.map_map]
    exact List.mem_map_of_mem (f := S.nameOf ∘ Prod.snd) (List.mem_filter.2 ⟨he, htype⟩)
  by_contra hne
  have hnodup := h.distinct
  rw [List.map_flatMap, List.nodup_flatMap] at hnodup
  have hsymm : Std.Symm (Function.onFun List.Disjoint fun d => (S.declaredTypes d).map S.nameOf) :=
    ⟨fun _ _ h _ ha hb => h hb ha⟩
  exact hnodup.2.forall hd hd' hne (hmem he htype) (hname ▸ hmem he' htype')

/-- So does the name of a type. -/
theorem eq_of_declared (hd : d ∈ root.types) (hd' : d' ∈ root.types) {package : String}
    {e e' : String × Tree} (he : e ∈ declared S (javaName package) none d)
    (he' : e' ∈ declared S (javaName package) none d') (heq : e.1 = e'.1) : d = d' := by
  have hsimple : ∀ {d e}, d ∈ root.types → e ∈ declared S (javaName package) none d →
      e.2.isTypeDeclaration = true → Types.simpleName e.1 = S.nameOf e.2 := by
    intro d e hd he htype
    obtain ⟨around, hname⟩ := exists_naming he htype
    rw [hname]
    exact simpleName_javaName (h.simple_of_declared hd he htype).2
  -- a method goes under the name of a type that stands in the same outermost one
  obtain ⟨f, hf, htype, hfe⟩ := exists_type_of_declared (List.mem_filter.1 hd).2 he
  obtain ⟨f', hf', htype', hfe'⟩ := exists_type_of_declared (List.mem_filter.1 hd').2 he'
  refine h.eq_of_nameOf hd hd' hf hf' htype htype' ?_
  rw [← hsimple hd hf htype, ← hsimple hd' hf' htype', hfe, hfe', heq]

theorem eq_of_nameOf_eq (hd : d ∈ root.types) (hd' : d' ∈ root.types)
    (hname : S.nameOf d = S.nameOf d') : d = d' := by
  have hown (d : Tree) : (javaName "" none (S.nameOf d), d) ∈ declared S (javaName "") none d := by
    rw [declared_eq]
    exact List.mem_cons_self
  exact h.eq_of_nameOf hd hd' (hown d) (hown d') (List.mem_filter.1 hd).2 (List.mem_filter.1 hd').2
    hname

theorem nodup_types : root.types.Nodup := by
  have hnodup := h.distinct
  rw [List.map_flatMap, List.nodup_flatMap] at hnodup
  refine hnodup.2.imp_of_mem fun {d d'} hd _ hdisjoint heq => ?_
  subst heq
  have hmem : S.nameOf d ∈ (S.declaredTypes d).map S.nameOf := by
    rw [declaredTypes_eq S (javaName "") none, declared_eq, List.filter_cons_of_pos]
    · exact List.mem_cons_self
    · exact (List.mem_filter.1 hd).2
  exact hdisjoint hmem hmem

/-- The two passes name the types alike. -/
theorem declared_eq_javaName (hd : d ∈ root.types) :
    declared S (readName (collected S root).localTypes) none d =
      declared S (javaName (headed S root).package) none d := by
  rw [declared_readName_eq_iff h.named hd]
  obtain ⟨type, hfirst, -⟩ := declared_readName h.named hd
  obtain ⟨e, hfind, rfl⟩ := Option.map_eq_some_iff.1 hfirst
  have hnodup := h.distinct
  have hown : (qualify (headed S root).package (S.nameOf d), d) ∈ javaDeclarations S root := by
    refine List.mem_flatMap.2 ⟨d, hd, ?_⟩
    rw [declared_eq]
    exact List.mem_cons_self
  have hpairs : ((root.types.flatMap S.declaredTypes).map S.nameOf) =
      ((javaDeclarations S root).filter (·.2.isTypeDeclaration)).map fun e => S.nameOf e.2 := by
    rw [javaDeclarations, declarations, List.filter_flatMap, List.map_flatMap, List.map_flatMap]
    refine List.flatMap_congr fun d _ => ?_
    rw [declaredTypes_eq S (javaName (headed S root).package) none, List.map_map]
    rfl
  rw [hpairs] at hnodup
  -- the first type with its simple name is the type itself, as no other has it
  have hnamed : isTypeNamed S (S.nameOf d) e = true := List.find?_some hfind
  rw [isTypeNamed, Bool.and_eq_true] at hnamed
  have heq : e = (qualify (headed S root).package (S.nameOf d), d) :=
    List.inj_on_of_nodup_map hnodup
      (List.mem_filter.2 ⟨List.mem_of_find?_eq_some hfind, hnamed.1⟩)
      (List.mem_filter.2 ⟨hown, (List.mem_filter.1 hd).2⟩) (eq_of_beq hnamed.2)
  rw [hfirst, heq]

/-- Types whose reading finds no field of each other through an object make no difference for each
other. -/
theorem apart (hd : d ∈ root.types) (hd' : d' ∈ root.types) (hne : d ≠ d')
    (hfields : ∀ name ∈ S.reachedFields d', name ∉ S.declaredFields d) :
    Apart S (collected S root) d d' where
  types type hmem' hmem := by
    simp only [declaredNames, h.declared_eq_javaName hd, h.declared_eq_javaName hd'] at hmem hmem'
    obtain ⟨e, he, rfl⟩ := List.mem_map.1 hmem
    obtain ⟨e', he', heq⟩ := List.mem_map.1 hmem'
    exact hne (h.eq_of_declared hd hd' (List.mem_filter.1 he).1 (List.mem_filter.1 he').1 heq.symm)
  fields := hfields

end DistinctTypes

/-! ### What the first pass notes -/

/-- Parts of a list may change places if at most one of them is not empty. -/
theorem flatMap_eq_of_perm {α β : Type} {f : α → List β} {l l' : List α} (h : l.Perm l')
    (hone : ∀ a ∈ l, ∀ b ∈ l, f a ≠ [] → f b ≠ [] → a = b) : l.flatMap f = l'.flatMap f := by
  induction h with
  | nil => rfl
  | cons a _ ih =>
    have hrest := ih fun b hb c hc => hone b (List.mem_cons_of_mem _ hb) c (List.mem_cons_of_mem _ hc)
    rw [List.flatMap_cons, List.flatMap_cons, hrest]
  | swap a b l =>
    have hab := hone a (by simp) b (by simp)
    simp only [List.flatMap_cons]
    by_cases ha : f a = []
    · simp [ha]
    · by_cases hb : f b = []
      · simp [hb]
      · rw [hab ha hb]
  | trans hl _ ih ih' =>
    refine (ih hone).trans (ih' fun a ha b hb => ?_)
    exact hone a (hl.mem_iff.2 ha) b (hl.mem_iff.2 hb)

/-- The superclass that a type names. -/
def superclass? (S : Source) (t : Tree) : Option String :=
  (t.child? "superclass").map fun c => S.textOf c.1.firstContent?

/-- Whether a declaration is that of a type with the name. -/
def isTypeCalled (type : String) (d : String × Tree) : Bool :=
  d.2.isTypeDeclaration && d.1 == type

theorem get?_superclasses_noted (S : Source) (s : State) (d : String × Tree) (type : String) :
    (noted S s d).superclasses.get? type =
      (if isTypeCalled type d then superclass? S d.2 else none).or (s.superclasses.get? type) := by
  unfold noted isTypeCalled superclass?
  by_cases htype : d.2.isTypeDeclaration = true
  · simp only [htype, if_true, Bool.true_and, beq_iff_eq]
    cases d.2.child? "superclass" with
    | none => simp
    | some c =>
      rw [Table.get?_insert]
      by_cases hname : type = d.1
      · simp [hname]
      · simp [hname, Ne.symm hname]
  · simp only [htype, Bool.false_and, Bool.false_eq_true, if_false, Option.none_or]
    split <;> rfl

/-- Of the superclasses that types with a name name, the last one stays. -/
theorem get?_superclasses_foldl_noted (S : Source) (ds : List (String × Tree)) (s : State)
    (type : String) :
    (ds.foldl (noted S) s).superclasses.get? type =
      ((ds.filter (isTypeCalled type)).filterMap fun d => superclass? S d.2).getLast?.or
        (s.superclasses.get? type) := by
  induction ds generalizing s with
  | nil => rfl
  | cons d ds ih =>
    rw [List.foldl_cons, ih, get?_superclasses_noted, List.filter_cons]
    cases isTypeCalled type d with
    | false => rfl
    | true =>
      simp only [if_true, List.filterMap_cons]
      cases superclass? S d.2 with
      | none => rfl
      | some c =>
        rw [List.getLast?_cons]
        cases ((ds.filter (isTypeCalled type)).filterMap fun d => superclass? S d.2).getLast? <;> rfl

theorem imports_collected (S : Source) (root : Tree) :
    (collected S root).imports = (headed S root).imports := by
  refine List.foldlRecOn (motive := fun s => State.imports s = (headed S root).imports) _ _ rfl
    fun s hs d _ => ?_
  unfold noted
  split
  · exact hs
  · split <;> exact hs

section

variable {S : Source} {root root' : Tree} (hreordered : Reordered root root')
  (hdistinct : DistinctTypes S root)

include hreordered

theorem filter_javaDeclarations {p : String × Tree → Bool}
    (hone : ∀ d ∈ root.types, ∀ d' ∈ root.types,
      ∀ e ∈ declared S (javaName (headed S root).package) none d,
      ∀ e' ∈ declared S (javaName (headed S root).package) none d', p e → p e' → d = d') :
    (javaDeclarations S root').filter p = (javaDeclarations S root).filter p := by
  rw [javaDeclarations, javaDeclarations, declarations, declarations, hreordered.headed_eq,
    List.filter_flatMap, List.filter_flatMap]
  refine (flatMap_eq_of_perm hreordered.perm_types.symm fun d hd d' hd' hne hne' => ?_).symm
  obtain ⟨e, he⟩ := List.exists_mem_of_ne_nil _ hne
  obtain ⟨e', he'⟩ := List.exists_mem_of_ne_nil _ hne'
  exact hone d hd d' hd' e (List.mem_filter.1 he).1 e' (List.mem_filter.1 he').1
    (List.mem_filter.1 he).2 (List.mem_filter.1 he').2

include hdistinct

/-- **The first pass** notes the same, whatever the order. -/
theorem sameNames_collected :
    State.SameNames (collected S root).notedNames (collected S root').notedNames where
  package := by
    refine (foldl_noted_package S _ _).trans ?_
    rw [hreordered.headed_eq]
    exact (foldl_noted_package S _ _).symm
  imports := by
    refine (imports_collected S root').trans ?_
    rw [hreordered.headed_eq]
    exact (imports_collected S root).symm
  localTypes name := by
    have hfilter : (javaDeclarations S root').filter (isTypeNamed S name) =
        (javaDeclarations S root).filter (isTypeNamed S name) := by
      refine filter_javaDeclarations hreordered fun d hd d' hd' e he e' he' hp hp' => ?_
      simp only [isTypeNamed, Bool.and_eq_true, beq_iff_eq] at hp hp'
      exact hdistinct.eq_of_nameOf hd hd' he he' hp.1 hp'.1 (hp.2.trans hp'.2.symm)
    refine (get?_localTypes_collected S root' name).trans ?_
    refine Eq.trans ?_ (get?_localTypes_collected S root name).symm
    rw [firstNamed?, firstNamed?, ← List.head?_filter, ← List.head?_filter, hfilter]
  superclasses type := by
    have hfilter : (javaDeclarations S root').filter (isTypeCalled type) =
        (javaDeclarations S root).filter (isTypeCalled type) := by
      refine filter_javaDeclarations hreordered fun d hd d' hd' e he e' he' hp hp' => ?_
      simp only [isTypeCalled, Bool.and_eq_true, beq_iff_eq] at hp hp'
      exact hdistinct.eq_of_declared hd hd' he he' (hp.2.trans hp'.2.symm)
    refine (get?_superclasses_foldl_noted S _ _ type).trans ?_
    refine Eq.trans ?_ (get?_superclasses_foldl_noted S _ _ type).symm
    rw [hfilter, hreordered.headed_eq]
  headers key := by
    have hfilter : (javaDeclarations S root').filter (isHeader S key) =
        (javaDeclarations S root).filter (isHeader S key) := by
      refine filter_javaDeclarations hreordered fun d hd d' hd' e he e' he' hp hp' => ?_
      simp only [isHeader, Bool.and_eq_true, beq_iff_eq] at hp hp'
      have hkey : headerKey S e = headerKey S e' := hp.2.trans hp'.2.symm
      have hname : (headerKey S e).1 = (headerKey S e').1 := congrArg Prod.fst hkey
      exact hdistinct.eq_of_declared hd hd' he he' hname
    refine (get?_headers_collected S root' key).trans ?_
    rw [hfilter]
    exact (get?_headers_collected S root key).symm

end

/-! ### Whether the first pass succeeds -/

theorem lockstep_collectType (S : Source) (around : String) (t : Tree) :
    Lockstep (fun s t => t.package = s.package) (collectType S around t) fun _ => True := by
  have hrun (s : State) : ∃ r, (collectType S around t).run s =
      .ok (qualify (if around == "" then s.package else around) (S.nameOf t), r) ∧
        r.package = s.package := ⟨_, rfl, rfl⟩
  intro s s' hs
  obtain ⟨r, hr, hpackage⟩ := hrun s
  obtain ⟨r', hr', hpackage'⟩ := hrun s'
  rw [hs] at hr'
  exact .inl ⟨_, r, r', hr, hr', hpackage'.trans (hs.trans hpackage.symm), trivial⟩

/-- The first pass goes on or fails whatever was noted before, in one package. -/
theorem lockstep_collect (S : Source) (around : String) (t : Tree) :
    Lockstep (fun s t => t.package = s.package) (collect S around t) fun _ => True := by
  induction hsize : t.size using Nat.strongRecOn generalizing around t with
  | ind n ih =>
    rw [collect]
    refine .bind (lockstep_collectType S around t) fun qualified _ => .forM fun m _ => ?_
    split
    · exact ih m.1.size (hsize ▸ m.2) qualified m.1 rfl
    · split
      · unfold collectMethod
        exact .bind (.require fun _ _ => trivial) fun _ _ => .modify fun s t hst => hst
      · exact .pure trivial

theorem collect_succeeds_congr {S : Source} {t : Tree} {s s' : State} (hs : s'.package = s.package) :
    (∃ r, (collect S "" t).run s = .ok ((), r)) ↔ ∃ r, (collect S "" t).run s' = .ok ((), r) := by
  rcases lockstep_collect S "" t s s' hs with ⟨_, r, r', hr, hr', -⟩ | ⟨f, hr, hr'⟩
  · exact iff_of_true ⟨r, hr⟩ ⟨r', hr'⟩
  · rw [hr, hr']

/-- The first pass succeeds if it does for each type. -/
theorem collects_succeeds_iff {S : Source} {ts : List Tree}
    (hts : ∀ t ∈ ts, t.isTypeDeclaration = true) (s : State) :
    (∃ r, (ts.forM (collect S "")).run s = .ok ((), r)) ↔
      ∀ t ∈ ts, ∃ r, (collect S "" t).run s = .ok ((), r) := by
  induction ts generalizing s with
  | nil => exact iff_of_true ⟨s, rfl⟩ (List.forall_mem_nil _)
  | cons t ts ih =>
    obtain ⟨ht, hts⟩ := List.forall_mem_cons.1 hts
    have hforM : ((t :: ts).forM (collect S "")).run s =
        (collect S "" t).run s >>= fun p => (ts.forM (collect S "")).run p.2 := rfl
    rw [hforM, List.forall_mem_cons]
    cases hfirst : (collect S "" t).run s with
    | error f =>
      refine iff_of_false ?_ fun h => ?_
      · rintro ⟨r, h⟩
        cases h
      · obtain ⟨⟨r, h⟩, -⟩ := h
        cases h
    | ok p =>
      have hnone : (none : Option String) = some "" → s.package = "" := nofun
      -- the types that follow are collected in the same package
      have hpackage : p.2.package = s.package := by
        rw [run_collect ht hnone hfirst]
        exact foldl_noted_package S _ s
      refine (ih hts p.2).trans ⟨fun h => ⟨⟨p.2, rfl⟩, fun t' ht' => ?_⟩, fun h t' ht' => ?_⟩
      · exact (collect_succeeds_congr hpackage).2 (h t' ht')
      · exact (collect_succeeds_congr hpackage).1 (h.2 t' ht')

/-! ### Units -/

/-- The units hold the same, in whatever order. -/
structure SameUnit (u u' : SourceUnit) : Prop where
  path : u'.path = u.path
  package : u'.package = u.package
  imports : u'.imports = u.imports
  methods : u'.methods.Perm u.methods
  calls : u'.calls.entries.Perm u.calls.entries
  bindings : u'.bindings.entries.Perm u.bindings.entries
  trustedLines : u'.trustedLines = u.trustedLines
  hasErrors : u'.hasErrors = u.hasErrors

/-- The fields that are known after some types were read are those of the types that these
declare. -/
theorem mem_fields_of_run {S : Source} {root : Tree} {earlier : List Tree}
    (hearlier : earlier <+: root.types) {s : State}
    (hrun : (earlier.forM (readType S)).run (collected S root) = .ok ((), s)) (type : String) :
    type ∈ s.fields.keys ↔
      ∃ d ∈ earlier, type ∈ (declaredNames S (collected S root).localTypes d).types := by
  have htypes : ∀ d ∈ earlier, d.isTypeDeclaration = true :=
    fun d hd => (List.mem_filter.1 (hearlier.subset hd)).2
  have hadds := describes_types (describes_adds S) htypes hrun
  rw [hadds.fields, (fresh_collected S root).fields]
  simp only [Table.keys, List.map_nil, List.not_mem_nil, false_or, List.mem_flatMap, declaredNames,
    List.mem_map, List.mem_filter]
  constructor
  · rintro ⟨e, ⟨d, hd, he⟩, htype, rfl⟩
    exact ⟨d, hd, e, ⟨he, htype⟩, rfl⟩
  · rintro ⟨d, hd, e, ⟨he, htype⟩, rfl⟩
    exact ⟨e, ⟨d, hd, he⟩, htype, rfl⟩

/-- What types give one by one is put together in any order. -/
theorem sameUnit_of_reordered {S : Source} {root root' : Tree} (hreordered : Reordered root root')
    (hdistinct : DistinctTypes S root)
    (hfields : ∀ d ∈ root.types, ∀ d' ∈ root.types, d ≠ d' →
      ∀ name ∈ S.reachedFields d, name ∉ S.declaredFields d')
    {u : SourceUnit} (hread : unitOfTree S root = .ok u) :
    ∃ u', unitOfTree S root' = .ok u' ∧ SameUnit u u' := by
  obtain ⟨t, hrun, rfl⟩ := exists_state_of_unitOfTree hread
  obtain ⟨⟨s, hcollect⟩, hrun⟩ := run_readUnit_iff.1 hrun
  have hperm := hreordered.perm_types
  have htypes : ∀ d ∈ root.types, d.isTypeDeclaration = true := fun d hd => (List.mem_filter.1 hd).2
  have hapart : ∀ d ∈ root.types, ∀ d' ∈ root.types, d ≠ d' → Apart S (collected S root) d d' :=
    fun d hd d' hd' hne => hdistinct.apart hd hd' hne (hfields d' hd' d hd hne.symm)
  have hpairwise : root.types.Pairwise (Apart S (collected S root)) :=
    hdistinct.nodup_types.pairwise_of_forall_ne hapart
  have hpairwise' : root'.types.Pairwise (Apart S (collected S root)) := by
    refine (hperm.nodup_iff.2 hdistinct.nodup_types).pairwise_of_forall_ne fun d hd d' hd' => ?_
    exact hapart d (hperm.mem_iff.1 hd) d' (hperm.mem_iff.1 hd')
  -- both orders put together what the types give from one state, that of the first order
  obtain ⟨t', hrun', hsame⟩ := run_types_of_perm (fresh_collected S root) hperm htypes hpairwise
    hpairwise' (fresh_collected S root') (sameNames_collected hreordered hdistinct) hrun
  have hcollect' : ∃ r, (root'.types.forM (collect S "")).run (headed S root') = .ok ((), r) := by
    rw [hreordered.headed_eq, collects_succeeds_iff fun d hd => htypes d (hperm.mem_iff.1 hd)]
    intro d hd
    exact (collects_succeeds_iff htypes _).1 ⟨s, hcollect⟩ d (hperm.mem_iff.1 hd)
  have hunit : (readUnit S root').run {} = .ok ((), t') := run_readUnit_iff.2 ⟨hcollect', hrun'⟩
  refine ⟨_, by rw [unitOfTree, hunit], ?_⟩
  exact ⟨rfl, hsame.names.package, hsame.names.imports, hsame.methods, hsame.methodCalls,
    hsame.bindings, rfl, rfl⟩

theorem run_forM_of_prefix {β : Type} {f : β → Read PUnit} {l l' : List β} (h : l <+: l')
    {s s' : State} (hrun : (l'.forM f).run s = .ok ((), s')) :
    ∃ s'', (l.forM f).run s = .ok ((), s'') := by
  induction l generalizing l' s with
  | nil => exact ⟨s, rfl⟩
  | cons x l ih =>
    obtain ⟨rest, rfl⟩ := h
    obtain ⟨_, s₁, hfirst, hrest⟩ := run_bind_eq_ok.1 hrun
    obtain ⟨s'', hs''⟩ := ih (List.prefix_append l rest) hrest
    exact ⟨s'', run_bind_eq_ok.2 ⟨_, s₁, hfirst, hs''⟩⟩

/-- The declarations of methods are the same, in another order. -/
theorem perm_headings {S : Source} {root root' : Tree} (hreordered : Reordered root root')
    (hdistinct : DistinctTypes S root) {s s' : State} (hrun : (readUnit S root).run {} = .ok ((), s))
    (hrun' : (readUnit S root').run {} = .ok ((), s')) :
    (s'.methods.map methodHeading).Perm (s.methods.map methodHeading) := by
  have hnames := sameNames_collected hreordered hdistinct
  have hnaming : readName (collected S root').localTypes = readName (collected S root).localTypes := by
    funext around name
    cases around with
    | none => exact hnames.typeName_eq name
    | some a => simp only [readName, hnames.typeName_eq]
  rw [headings_readUnit hrun, headings_readUnit hrun', headingOf_congr S hnames.resolveType_eq,
    readDeclarations, readDeclarations, declarations, declarations, hnaming]
  exact ((hreordered.perm_types.flatMap_right _).filter _).map _

/-- In whatever order, calls are typed by the headers of all types. -/
theorem typed_of_reordered {S : Source} {root root' : Tree} (hreordered : Reordered root root')
    (hdistinct : DistinctTypes S root) {u : SourceUnit} (hread : unitOfTree S root' = .ok u) {e : Expr}
    (he : u.Holds e) : Typed (collected S root) e := by
  have hnames := sameNames_collected hreordered hdistinct
  have htyped := typed_of_holds hread he
  cases e with
  | call o name receiver args type result =>
    rw [Typed, hnames.returnType?_eq] at htyped
    exact htyped
  | _ => trivial

/-- **Types may be read in any order**, so long as none of them looks in an object for a field that
another one declares: the unit holds the same methods, calls and values.  If one does, methods still
agree but for their bodies, and calls are typed by the same headers.  Known are then the fields of the
types before the one that is read. -/
theorem types_read_in_any_order {S : Source} {root root' : Tree} (hreordered : Reordered root root')
    (hdistinct : DistinctTypes S root) {u : SourceUnit} (hread : unitOfTree S root = .ok u) :
    ((∀ d ∈ root.types, ∀ d' ∈ root.types, d ≠ d' →
        ∀ name ∈ S.reachedFields d, name ∉ S.declaredFields d') →
      ∃ u', unitOfTree S root' = .ok u' ∧ SameUnit u u') ∧
    (∀ u', unitOfTree S root' = .ok u' →
      (u'.methods.map methodHeading).Perm (u.methods.map methodHeading) ∧
      ∀ e, u.Holds e ∨ u'.Holds e → Typed (collected S root) e) ∧
    ∀ earlier, earlier <+: root.types → ∃ s,
      (earlier.forM (readType S)).run (collected S root) = .ok ((), s) ∧
      ∀ type, type ∈ s.fields.keys ↔
        ∃ d ∈ earlier, type ∈ (declaredNames S (collected S root).localTypes d).types := by
  obtain ⟨t, hrun, hu⟩ := exists_state_of_unitOfTree hread
  refine ⟨fun hfields => sameUnit_of_reordered hreordered hdistinct hfields hread,
    fun u' hread' => ⟨?_, fun e he => ?_⟩, fun earlier hearlier => ?_⟩
  · obtain ⟨t', hrun', hu'⟩ := exists_state_of_unitOfTree hread'
    rw [hu, hu']
    exact perm_headings hreordered hdistinct hrun hrun'
  · rcases he with he | he
    · exact typed_of_holds hread he
    · exact typed_of_reordered hreordered hdistinct hread' he
  · obtain ⟨s, hs⟩ := run_forM_of_prefix hearlier (run_readUnit hrun)
    exact ⟨s, hs, mem_fields_of_run hearlier hs⟩

/-- Two types that mention each other. -/
def mutualText : String :=
  "package p; class A \x7b int k; int m(B x, A y) \x7b return x.f(y.k); \x7d \x7d " ++
  "class B extends A \x7b class C \x7b \x7d int n; int f(int i) \x7b return this.n; \x7d \x7d"

def mutualSource : Source := .ofText "A.java" mutualText

/-- Each of them is read alike before the other and after it. -/
theorem mutual_types_in_either_order :
    ∃ u u', unitOfTree mutualSource (treeOf mutualText) = .ok u ∧
      unitOfTree mutualSource (treeOf mutualText).reverseTypes = .ok u' ∧ SameUnit u u' := by
  obtain ⟨hsimple, hnodup, hfields, hsome⟩ :
      (∀ d ∈ (treeOf mutualText).types.flatMap mutualSource.declaredTypes,
        mutualSource.nameOf d ≠ "" ∧ '.' ∉ (mutualSource.nameOf d).toList) ∧
      (((treeOf mutualText).types.flatMap mutualSource.declaredTypes).map
        mutualSource.nameOf).Nodup ∧
      (∀ d ∈ (treeOf mutualText).types, ∀ d' ∈ (treeOf mutualText).types,
        mutualSource.nameOf d ≠ mutualSource.nameOf d' →
          ∀ name ∈ mutualSource.reachedFields d, name ∉ mutualSource.declaredFields d') ∧
      (unitOfTree mutualSource (treeOf mutualText)).toOption.isSome := by
    decide +kernel
  have hdistinct : DistinctTypes mutualSource (treeOf mutualText) := ⟨hsimple, hnodup⟩
  cases hread : unitOfTree mutualSource (treeOf mutualText) with
  | error f =>
    rw [hread] at hsome
    cases hsome
  | ok u =>
    have horder := types_read_in_any_order (reordered_reverseTypes _) hdistinct hread
    obtain ⟨u', hread', hsame⟩ := horder.1 fun d hd d' hd' hne =>
      hfields d hd d' hd' fun hname => hne (hdistinct.eq_of_nameOf_eq hd hd' hname)
    exact ⟨u, u', rfl, hread', hsame⟩

/-- The fields that calls of a unit are given, by name and by the type that declares them. -/
def givenFields (u : SourceUnit) : List (String × Option String) :=
  u.calls.values.flatten.flatMap fun e =>
    match e with
    | .call _ _ _ args _ _ =>
      args.filterMap fun a =>
        match a with
        | .qualified _ _ (some n) => some (n.identifier, n.binding.bind (·.declaringType))
        | _ => none
    | _ => []

theorem SameUnit.perm_givenFields {u u' : SourceUnit} (h : SameUnit u u') :
    (givenFields u').Perm (givenFields u) :=
  (h.calls.map Prod.snd).flatten.flatMap_right _

/-- A type that looks for a field of a later one. -/
def laterText : String :=
  "class A \x7b void m(B b) \x7b exec(b.cmd); \x7d \x7d class B \x7b String cmd; \x7d"

def laterSource : Source := .ofText "A.java" laterText

/-- A field is not found before its type is read, and found afterwards. -/
theorem field_of_later_type_unbound :
    Reordered (treeOf laterText) (treeOf laterText).reverseTypes ∧
      DistinctTypes laterSource (treeOf laterText) ∧
      ∃ u u', unitOfTree laterSource (treeOf laterText) = .ok u ∧
        unitOfTree laterSource (treeOf laterText).reverseTypes = .ok u' ∧
        givenFields u = [("cmd", none)] ∧ givenFields u' = [("cmd", some "B")] ∧ ¬SameUnit u u' := by
  obtain ⟨hsimple, hnodup, hfields, hfields'⟩ :
      (∀ d ∈ (treeOf laterText).types.flatMap laterSource.declaredTypes,
        laterSource.nameOf d ≠ "" ∧ '.' ∉ (laterSource.nameOf d).toList) ∧
      (((treeOf laterText).types.flatMap laterSource.declaredTypes).map laterSource.nameOf).Nodup ∧
      (unitOfTree laterSource (treeOf laterText)).toOption.map givenFields =
        some [("cmd", none)] ∧
      (unitOfTree laterSource (treeOf laterText).reverseTypes).toOption.map givenFields =
        some [("cmd", some "B")] := by
    decide +kernel
  have hunit : ∀ {root fs}, (unitOfTree laterSource root).toOption.map givenFields = some fs →
      ∃ u, unitOfTree laterSource root = .ok u ∧ givenFields u = fs := by
    intro root fs h
    cases hread : unitOfTree laterSource root with
    | error f =>
      rw [hread] at h
      cases h
    | ok u =>
      rw [hread] at h
      exact ⟨u, rfl, Option.some.inj h⟩
  obtain ⟨u, hread, hu⟩ := hunit hfields
  obtain ⟨u', hread', hu'⟩ := hunit hfields'
  refine ⟨reordered_reverseTypes _, ⟨hsimple, hnodup⟩, u, u', hread, hread', hu, hu', fun hsame => ?_⟩
  have hperm := hsame.perm_givenFields
  rw [hu, hu', List.singleton_perm_singleton] at hperm
  cases hperm

end TaintFlow.Java
