import TaintFlow.Proofs.Java.Declarations

/-!
# The names of types in the two passes

The first pass names a type by what stands around it and notes its headers under that name.  It also
keeps a table from simple names to names, in which the first type of a simple name stays.  The second
pass names the types inside another by what stands around them, but looks the outermost ones up in
the table.  So the passes agree unless an outermost type has the simple name of an earlier type: then
it is read under the name of that other type, with all that is inside.

* `get?_localTypes_collected`, `mem_headers_collected` : what the first pass notes.
* `declared_readName` : the names of the second pass, told from the table.
* `types_read_under_java_names` : which declarations are read under which names.
* `later_type_read_as_nested` : an outermost type that is read under the name of a nested one.
-/

namespace TaintFlow.Java

open TaintFlow.Code Read

/-! ### What the first pass notes -/

/-- Whether a declaration is that of a type with the simple name. -/
def isTypeNamed (S : Source) (name : String) (d : String × Tree) : Bool :=
  d.2.isTypeDeclaration && S.nameOf d.2 == name

theorem get?_localTypes_noted (S : Source) (s : State) (d : String × Tree) (name : String) :
    (noted S s d).localTypes.get? name =
      (s.localTypes.get? name).or (if isTypeNamed S name d then some d.1 else none) := by
  unfold noted isTypeNamed
  by_cases htype : d.2.isTypeDeclaration = true
  · simp only [htype, if_true, Bool.true_and, beq_iff_eq]
    by_cases hname : S.nameOf d.2 = name
    · subst hname
      cases hget : s.localTypes.get? (S.nameOf d.2) with
      | some q => simp [Table.contains, hget]
      | none => simp [Table.contains, hget, Table.get?_insert]
    · rw [if_neg hname, Option.or_none]
      split
      · rfl
      · rw [Table.get?_insert, if_neg (Ne.symm hname)]
  · rw [if_neg htype]
    simp only [Bool.eq_false_iff.2 htype, Bool.false_and, Bool.false_eq_true, if_false, Option.or_none]
    split <;> rfl

/-- Of the types with a simple name the first one stays in the table. -/
theorem get?_localTypes_foldl_noted (S : Source) (ds : List (String × Tree)) (s : State)
    (name : String) :
    (ds.foldl (noted S) s).localTypes.get? name =
      (s.localTypes.get? name).or ((ds.find? (isTypeNamed S name)).map (·.1)) := by
  induction ds generalizing s with
  | nil => simp
  | cons d ds ih =>
    rw [List.foldl_cons, ih, get?_localTypes_noted, List.find?_cons, Option.or_assoc]
    cases isTypeNamed S name d <;> simp

theorem mem_headers_foldl_noted (S : Source) (ds : List (String × Tree)) (s : State)
    (key : HeaderKey) :
    key ∈ (ds.foldl (noted S) s).headers.keys ↔ key ∈ s.headers.keys ∨
      ∃ d ∈ ds, d.2.type = "method_declaration" ∧ headerKey S d = key := by
  induction ds generalizing s with
  | nil => simp
  | cons d ds ih =>
    have hstep : key ∈ (noted S s d).headers.keys ↔
        key ∈ s.headers.keys ∨ (d.2.type = "method_declaration" ∧ headerKey S d = key) := by
      unfold noted
      by_cases htype : d.2.isTypeDeclaration = true
      · have hmethod : d.2.type ≠ "method_declaration" := by
          intro h
          rw [Tree.isTypeDeclaration, h] at htype
          exact absurd htype (by decide)
        simp [htype, hmethod]
      · rw [if_neg htype]
        by_cases hmethod : d.2.type = "method_declaration"
        · simp only [hmethod, beq_self_eq_true, if_true, Table.mem_keys_insert, true_and, eq_comm]
        · simp [hmethod]
    rw [List.foldl_cons, ih, hstep, or_assoc, List.exists_mem_cons_iff]

theorem headed_tables (S : Source) (root : Tree) :
    (headed S root).localTypes = {} ∧ (headed S root).headers = {} := by
  refine List.foldlRecOn (motive := fun s : State => s.localTypes = {} ∧ s.headers = {}) _ _ ⟨rfl, rfl⟩
    fun s hs t _ => ?_
  unfold readHeader readImport
  split
  · exact hs
  · split
    · split
      · exact hs
      · split <;> exact hs
    · exact hs

/-- The first type of the unit with a simple name. -/
def firstNamed? (S : Source) (root : Tree) (name : String) : Option String :=
  ((javaDeclarations S root).find? (isTypeNamed S name)).map (·.1)

theorem get?_localTypes_collected (S : Source) (root : Tree) (name : String) :
    (collected S root).localTypes.get? name = firstNamed? S root name := by
  rw [collected, get?_localTypes_foldl_noted, (headed_tables S root).1]
  rfl

theorem mem_headers_collected (S : Source) (root : Tree) (key : HeaderKey) :
    key ∈ (collected S root).headers.keys ↔
      ∃ d ∈ javaDeclarations S root, d.2.type = "method_declaration" ∧ headerKey S d = key := by
  rw [collected, mem_headers_foldl_noted, (headed_tables S root).2]
  simp [Table.keys]

/-! ### Names that are not empty -/

theorem qualify_ne_empty {around name : String} (h : name ≠ "") : qualify around name ≠ "" := by
  unfold qualify
  split
  · exact h
  · intro hempty
    have hlength := congrArg String.length hempty
    simp at hlength

/-- All types among the declarations have simple names. -/
def Named (S : Source) (ds : List (String × Tree)) : Prop :=
  ∀ d ∈ ds, d.2.isTypeDeclaration = true → S.nameOf d.2 ≠ ""

/-- Names do not matter for what is declared. -/
theorem map_snd_declaredIn (S : Source) (naming naming' : Naming) (type type' : String) (m : Tree) :
    (declaredIn S naming type m).map (·.2) = (declaredIn S naming' type' m).map (·.2) := by
  induction hsize : m.size using Nat.strongRecOn generalizing m type type' with
  | ind n ih =>
    unfold declaredIn
    split
    · rw [declared_eq, declared_eq, List.map_cons, List.map_cons, List.map_flatMap, List.map_flatMap]
      refine congrArg _ (List.flatMap_congr fun c _ => ?_)
      exact ih c.1.size (hsize ▸ c.2) _ _ c.1 rfl
    · split <;> rfl

theorem named_congr {S : Source} {ds ds' : List (String × Tree)}
    (h : ds.map (·.2) = ds'.map (·.2)) (hds : Named S ds) : Named S ds' := by
  intro d hd
  have hmem : d.2 ∈ ds.map (·.2) := h ▸ List.mem_map_of_mem hd
  obtain ⟨d', hd', heq⟩ := List.mem_map.1 hmem
  rw [← heq]
  exact hds d' hd'

/-! ### Names of the second pass -/

/-- Inside a type with a name the second pass uses the names of the language. -/
theorem declaredIn_readName {S : Source} {localTypes : Table String String} {package type : String}
    {m : Tree} (htype : type ≠ "") (hnamed : Named S (declaredIn S (javaName package) type m)) :
    declaredIn S (readName localTypes) type m = declaredIn S (javaName package) type m := by
  induction hsize : m.size using Nat.strongRecOn generalizing m type with
  | ind n ih =>
    unfold declaredIn at hnamed ⊢
    split at hnamed
    · rename_i hm
      have hname : readName localTypes (some type) (S.nameOf m) =
          javaName package (some type) (S.nameOf m) := by
        simp [readName, javaName, qualify, htype]
      rw [if_pos hm, if_pos hm, declared_eq, declared_eq, hname]
      rw [declared_eq] at hnamed
      refine congrArg _ (List.flatMap_congr fun c hc => ?_)
      refine ih c.1.size (hsize ▸ c.2) (qualify_ne_empty ?_) (fun d hd => ?_) rfl
      · exact hnamed _ List.mem_cons_self hm
      · exact hnamed d (List.mem_cons_of_mem _ (List.mem_flatMap.2 ⟨c, hc, hd⟩))
    · rename_i hm
      rw [if_neg hm, if_neg hm]

/-- A type gets its name by the naming. -/
theorem exists_naming {S : Source} {naming : Naming} {around : Option String} {t : Tree}
    {d : String × Tree} (hd : d ∈ declared S naming around t) (htype : d.2.isTypeDeclaration = true) :
    ∃ around', d.1 = naming around' (S.nameOf d.2) := by
  induction hsize : t.size using Nat.strongRecOn generalizing around t with
  | ind n ih =>
    rw [declared_eq] at hd
    rcases List.mem_cons.1 hd with rfl | hd
    · exact ⟨around, rfl⟩
    · obtain ⟨m, -, hd⟩ := List.mem_flatMap.1 hd
      unfold declaredIn at hd
      split at hd
      · exact ih m.1.size (hsize ▸ m.2) hd rfl
      · rename_i hm
        split at hd
        · rw [List.mem_singleton.1 hd] at htype
          exact absurd htype hm
        · cases hd

section

variable {S : Source} {root t : Tree} (hnamed : Named S (javaDeclarations S root))

include hnamed

theorem name_ne_empty {d : String × Tree} (hd : d ∈ javaDeclarations S root)
    (htype : d.2.isTypeDeclaration = true) : d.1 ≠ "" := by
  obtain ⟨t, -, hmem⟩ := List.mem_flatMap.1 hd
  obtain ⟨around, hname⟩ := exists_naming hmem htype
  rw [hname]
  cases around with
  | none => exact qualify_ne_empty (hnamed d hd htype)
  | some a => exact qualify_ne_empty (hnamed d hd htype)

/-- **The names of the second pass**: an outermost type is read under the name of the first type with
its simple name, and what is inside under the names that follow from that. -/
theorem declared_readName (ht : t ∈ root.types) :
    ∃ type, firstNamed? S root (S.nameOf t) = some type ∧
      declared S (readName (collected S root).localTypes) none t = (type, t) ::
        t.members.flatMap fun m => declaredIn S (javaName (headed S root).package) type m.1 := by
  have hown : (javaName (headed S root).package none (S.nameOf t), t) ∈ javaDeclarations S root := by
    refine List.mem_flatMap.2 ⟨t, ht, ?_⟩
    rw [declared_eq]
    exact List.mem_cons_self
  have hsome : ((javaDeclarations S root).find? (isTypeNamed S (S.nameOf t))).isSome := by
    rw [List.find?_isSome]
    exact ⟨_, hown, by simp [isTypeNamed, (List.mem_filter.1 ht).2]⟩
  obtain ⟨d, hd⟩ := Option.isSome_iff_exists.1 hsome
  have hfirst : firstNamed? S root (S.nameOf t) = some d.1 := by rw [firstNamed?, hd]; rfl
  have htype : d.2.isTypeDeclaration = true := by
    have h := List.find?_some hd
    exact (Bool.and_eq_true_iff.1 h).1
  have hempty := name_ne_empty hnamed (List.mem_of_find?_eq_some hd) htype
  refine ⟨d.1, hfirst, ?_⟩
  have hname : readName (collected S root).localTypes none (S.nameOf t) = d.1 := by
    rw [readName, Table.getD_of_get?]
    rw [get?_localTypes_collected, hfirst]
  rw [declared_eq, hname]
  refine congrArg _ (List.flatMap_congr fun m hm => declaredIn_readName hempty ?_)
  -- the types inside have simple names, whatever the type around them is called
  have hinside : Named S (declaredIn S (javaName (headed S root).package)
      (javaName (headed S root).package none (S.nameOf t)) m.1) := by
    intro d' hd'
    refine hnamed d' (List.mem_flatMap.2 ⟨t, ht, ?_⟩)
    rw [declared_eq]
    exact List.mem_cons_of_mem _ (List.mem_flatMap.2 ⟨m, hm, hd'⟩)
  exact named_congr (map_snd_declaredIn S _ _ _ _ _) hinside

/-- An outermost type is read under its own name, with all that is inside, exactly if the first type
with its simple name has that name. -/
theorem declared_readName_eq_iff (ht : t ∈ root.types) :
    declared S (readName (collected S root).localTypes) none t =
        declared S (javaName (headed S root).package) none t ↔
      firstNamed? S root (S.nameOf t) = some (qualify (headed S root).package (S.nameOf t)) := by
  obtain ⟨type, hfirst, hread⟩ := declared_readName hnamed ht
  rw [hread, hfirst, declared_eq]
  constructor
  · intro h
    have hhead := (List.cons.inj h).1
    exact congrArg some (congrArg Prod.fst hhead)
  · intro h
    rw [Option.some.inj h]
    rfl

end

/-! ### Units -/

theorem declaringTypes_of_readFrom {S : Source} {ds : List (String × Tree)} {ms : List Method}
    (h : List.Forall₂ (ReadFrom S) ds ms) :
    ms.map (·.signature.declaringType) = ds.map (·.1) := by
  induction h with
  | nil => rfl
  | cons hd _ ih => rw [List.map_cons, List.map_cons, ih, hd.declaringType]

/-- Which declarations of a unit are noted and read under which names. -/
structure TypesNamed (S : Source) (root : Tree) (s : State) : Prop where
  package : s.package = (headed S root).package
  /-- The first pass notes headers under the names of the language. -/
  headers : ∀ key, key ∈ s.headers.keys ↔
    ∃ d ∈ javaDeclarations S root, d.2.type = "method_declaration" ∧ headerKey S d = key
  /-- Its table of simple names keeps the first type of each. -/
  localTypes : ∀ name, s.localTypes.get? name = firstNamed? S root name
  /-- The second pass reads each method once, in the order of the source. -/
  methods : List.Forall₂ (ReadFrom S) ((readDeclarations S root).filter (·.2.isMethod)) s.methods
  /-- It reads the fields of each type. -/
  fields : ∀ type, type ∈ s.fields.keys ↔
    ∃ d ∈ readDeclarations S root, d.2.isTypeDeclaration = true ∧ d.1 = type
  /-- It reads an outermost type under the name of the first type with its simple name. -/
  outermost : ∀ t ∈ root.types, ∃ type, firstNamed? S root (S.nameOf t) = some type ∧
    declared S (readName s.localTypes) none t = (type, t) ::
      t.members.flatMap fun m => declaredIn S (javaName s.package) type m.1
  /-- The passes agree on an outermost type exactly if the name of that first type is its own. -/
  agree_iff : ∀ t ∈ root.types,
    declared S (readName s.localTypes) none t = declared S (javaName s.package) none t ↔
      firstNamed? S root (S.nameOf t) = some (qualify s.package (S.nameOf t))
  /-- If that is so for all of them, the unit is read under the names of the language. -/
  agree : (∀ t ∈ root.types,
      firstNamed? S root (S.nameOf t) = some (qualify s.package (S.nameOf t))) →
    readDeclarations S root = javaDeclarations S root ∧
      s.methods.map (·.signature.declaringType) =
        ((javaDeclarations S root).filter (·.2.isMethod)).map (·.1)

/-- **Which names types are read under**, for every unit whose types have names.  Types inside others
are named alike in both passes.  An outermost type is read under the name of the first type with its
simple name, which is its own unless a type inside an earlier one has that simple name too. -/
theorem types_read_under_java_names {S : Source} {root : Tree} {s : State}
    (hrun : (readUnit S root).run {} = .ok ((), s)) (hnamed : Named S (javaDeclarations S root)) :
    TypesNamed S root s := by
  have hadds := adds_readUnit hrun
  have hlocal : s.localTypes = (collected S root).localTypes := by
    rw [← State.localTypes_heading, hadds.heading, State.localTypes_heading]
  have hheaders : s.headers = (collected S root).headers := by
    have h : s.heading.headers = (collected S root).heading.headers := by rw [hadds.heading]
    exact h
  have hpackage : s.package = (headed S root).package := by
    have h : s.heading.package = (collected S root).heading.package := by rw [hadds.heading]
    exact Eq.trans h (foldl_noted_package S _ _)
  have hcontents := contents_collected S root
  have hmethods : List.Forall₂ (ReadFrom S) ((readDeclarations S root).filter (·.2.isMethod))
      s.methods := by
    obtain ⟨new, hnew, hmethods, -⟩ := hadds.methods
    have hnone : (collected S root).methods = [] := congrArg (·.2.2.1) hcontents
    rw [hmethods, hnone, List.nil_append]
    exact List.forall₂_map_right_iff.2 hnew
  constructor
  case package => exact hpackage
  case methods => exact hmethods
  case headers =>
    intro key
    rw [hheaders, mem_headers_collected]
  case localTypes =>
    intro name
    rw [hlocal, get?_localTypes_collected]
  case fields =>
    intro type
    have hnone : (collected S root).fields = {} := congrArg (·.2.1) hcontents
    rw [hadds.fields, hnone]
    simp [Table.keys]
  case outermost =>
    rw [hlocal, hpackage]
    exact fun t ht => declared_readName hnamed ht
  case agree_iff =>
    rw [hlocal, hpackage]
    exact fun t ht => declared_readName_eq_iff hnamed ht
  case agree =>
    intro h
    rw [hpackage] at h
    have hnames : readDeclarations S root = javaDeclarations S root :=
      List.flatMap_congr fun t ht => (declared_readName_eq_iff hnamed ht).2 (h t ht)
    exact ⟨hnames, by rw [declaringTypes_of_readFrom hmethods, hnames]⟩

/-- A unit with a type inside another. -/
def nestedTypes : String :=
  "package p; class A \x7b A() \x7b \x7d class B \x7b void f() \x7b \x7d \x7d \x7d"

/-- The source of that unit. -/
def nestedSource : Source :=
  .ofText "A.java" nestedTypes

theorem nested_types_read_under_java_names :
    ∃ s, (readUnit nestedSource (treeOf nestedTypes)).run {} = .ok ((), s) ∧
      s.methods.map (·.signature.declaringType) = ["p.A", "p.A.B"] := by
  obtain ⟨hnamed, hok, hfirst, hnames⟩ :
      (∀ d ∈ javaDeclarations nestedSource (treeOf nestedTypes),
        d.2.isTypeDeclaration = true → nestedSource.nameOf d.2 ≠ "") ∧
      ((readUnit nestedSource (treeOf nestedTypes)).run {}).toBool = true ∧
      (∀ t ∈ (treeOf nestedTypes).types,
        firstNamed? nestedSource (treeOf nestedTypes) (nestedSource.nameOf t) =
          some (qualify (headed nestedSource (treeOf nestedTypes)).package (nestedSource.nameOf t))) ∧
      ((javaDeclarations nestedSource (treeOf nestedTypes)).filter (·.2.isMethod)).map (·.1) =
        ["p.A", "p.A.B"] := by
    decide +kernel
  cases hrun : (readUnit nestedSource (treeOf nestedTypes)).run {} with
  | error f =>
    rw [hrun] at hok
    cases hok
  | ok p =>
    have h := types_read_under_java_names hrun hnamed
    refine ⟨p.2, rfl, (h.agree ?_).2.trans hnames⟩
    rw [h.package]
    exact hfirst

/-- A unit with a type `B` after a type that has another `B` inside. -/
def laterType : String :=
  "class A \x7b class B \x7b void g() \x7b \x7d \x7d \x7d class B \x7b void f() \x7b \x7d \x7d"

/-- **The passes disagree** on an outermost type with the simple name of an earlier nested one.  Its
headers are noted under its own name, and its methods are read as methods of the nested type. -/
theorem later_type_read_as_nested :
    ((javaDeclarations (.ofText "A.java" laterType) (treeOf laterType)).filter
        (·.2.isMethod)).map (·.1) = ["A.B", "B"] ∧
      (unitOfTree (.ofText "A.java" laterType) (treeOf laterType)).toOption.map
        (fun u => u.methods.map (·.signature.declaringType)) = some ["A.B", "A.B"] := by
  decide +kernel

end TaintFlow.Java
