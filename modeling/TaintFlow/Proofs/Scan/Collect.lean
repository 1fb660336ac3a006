import TaintFlow.Proofs.Files.Path
import TaintFlow.Proofs.Pointwise
import TaintFlow.Proofs.Scan.Stages

/-!
# Collected files

The files that a scan collects have one of the endings of source files, and they lie below the
target.  The second fact needs that names in directories hold no slash: a name with a slash in front
would lead anywhere.

* `hasEnding_of_mem_ofRequest` : what is collected has one of the endings.
* `isUnder_of_mem_ofRequest` : what is collected lies below the target.
-/

namespace TaintFlow

open TaintFlow.Files

/-- Names in directories hold no slash. -/
inductive Files.Entry.Named : Entry → Prop
  | file (bytes : ByteArray) : Named (.file bytes)
  | unreadable : Named .unreadable
  | brokenLink : Named .brokenLink
  | directory {entries : List (String × Entry)} (names : ∀ x ∈ entries, '/' ∉ x.1.toList)
      (inside : ∀ x ∈ entries, Named x.2) : Named (.directory entries)

namespace Collect

/-- A path leads from a directory to an entry below it. -/
inductive Reaches : String → Entry → String → Prop
  | here {dir name : String} {entry : Entry} {entries : List (String × Entry)}
      (h : (name, entry) ∈ entries) : Reaches dir (.directory entries) (Path.join dir name)
  | deeper {dir name path : String} {entry : Entry} {entries : List (String × Entry)}
      (h : (name, entry) ∈ entries) (hpath : Reaches (Path.join dir name) entry path) :
      Reaches dir (.directory entries) path

theorem isUnder_of_reaches {top dir path : String} {entry : Entry} (h : Reaches dir entry path)
    (hnamed : entry.Named) (hdir : Path.isUnder top dir = true) : Path.isUnder top path = true := by
  induction h with
  | here h =>
    cases hnamed with
    | directory names _ => exact Path.isUnder_join hdir (Path.not_isAbsolute (names _ h))
  | deeper h _ ih =>
    cases hnamed with
    | directory names inside =>
      exact ih (inside _ h) (Path.isUnder_join hdir (Path.not_isAbsolute (names _ h)))

section

variable {c : Config} {patterns : List Value}

theorem hasEnding_of_isScanned {path : String} {entry : Entry}
    (h : isScanned c patterns path entry = .ok true) : hasEnding c.endings path = true := by
  unfold isScanned at h
  cases hending : hasEnding c.endings path with
  | true => rfl
  | false =>
    rw [hending] at h
    cases h

theorem mem_filesIn {dir path : String} {entries : List (String × Entry)} {files : List String}
    (h : filesIn c patterns dir entries = .ok files) (hpath : path ∈ files) :
    ∃ name entry, (name, entry) ∈ entries ∧ path = Path.join dir name ∧
      hasEnding c.endings path = true := by
  induction entries generalizing files with
  | nil =>
    cases h
    cases hpath
  | cons x entries ih =>
    obtain ⟨name, entry⟩ := x
    unfold filesIn at h
    obtain ⟨this, hthis, h⟩ := bind_eq_ok_iff.1 h
    obtain ⟨others, hothers, h⟩ := bind_eq_ok_iff.1 h
    obtain rfl : (if this then Path.join dir name :: others else others) = files := Except.ok.inj h
    have hcases : (path = Path.join dir name ∧ this = true) ∨ path ∈ others := by
      cases this with
      | false => exact .inr hpath
      | true => exact (List.mem_cons.1 hpath).imp (fun heq => ⟨heq, rfl⟩) id
    rcases hcases with ⟨rfl, rfl⟩ | hmem
    · exact ⟨name, entry, List.mem_cons_self, rfl, hasEnding_of_isScanned hthis⟩
    · obtain ⟨n, e, he, hp⟩ := ih hothers hmem
      exact ⟨n, e, List.mem_cons_of_mem _ he, hp⟩

mutual

theorem mem_under {dir path : String} {entry : Entry} {files : List String}
    (h : under c patterns dir entry = .ok files) (hpath : path ∈ files) :
    Reaches dir entry path ∧ hasEnding c.endings path = true := by
  cases entry with
  | directory entries =>
    unfold under at h
    obtain ⟨here, hhere, h⟩ := bind_eq_ok_iff.1 h
    obtain ⟨deeper, hdeeper, h⟩ := bind_eq_ok_iff.1 h
    obtain rfl : here ++ deeper = files := Except.ok.inj h
    rcases List.mem_append.1 hpath with hmem | hmem
    · obtain ⟨name, entry, he, rfl, hending⟩ := mem_filesIn hhere hmem
      exact ⟨.here he, hending⟩
    · obtain ⟨name, entry, he, hreaches, hending⟩ := mem_underAll hdeeper hmem
      exact ⟨.deeper he hreaches, hending⟩
  | file bytes =>
    cases h
    cases hpath
  | unreadable =>
    cases h
    cases hpath
  | brokenLink =>
    cases h
    cases hpath
termination_by structural entry

theorem mem_underAll {dir path : String} {entries : List (String × Entry)} {files : List String}
    (h : underAll c patterns dir entries = .ok files) (hpath : path ∈ files) :
    ∃ name entry, (name, entry) ∈ entries ∧ Reaches (Path.join dir name) entry path ∧
      hasEnding c.endings path = true := by
  cases entries with
  | nil =>
    cases h
    cases hpath
  | cons x entries =>
    obtain ⟨name, entry⟩ := x
    have hrest : ∀ others, underAll c patterns dir entries = .ok others → path ∈ others →
        ∃ n e, (n, e) ∈ (name, entry) :: entries ∧ Reaches (Path.join dir n) e path ∧
          hasEnding c.endings path = true := by
      intro others hothers hmem
      obtain ⟨n, e, he, hp⟩ := mem_underAll hothers hmem
      exact ⟨n, e, List.mem_cons_of_mem _ he, hp⟩
    unfold underAll at h
    simp only at h
    split at h
    · obtain ⟨_, ⟨rfl⟩, h⟩ := bind_eq_ok_iff.1 h
      obtain ⟨others, hothers, h⟩ := bind_eq_ok_iff.1 h
      obtain rfl : others = files := Except.ok.inj h
      exact hrest others hothers hpath
    · obtain ⟨here, hhere, h⟩ := bind_eq_ok_iff.1 h
      obtain ⟨others, hothers, h⟩ := bind_eq_ok_iff.1 h
      obtain rfl : here ++ others = files := Except.ok.inj h
      rcases List.mem_append.1 hpath with hmem | hmem
      · exact ⟨name, entry, List.mem_cons_self, mem_under hhere hmem⟩
      · exact hrest others hothers hmem
termination_by structural entries

end

theorem mem_files {fs : FileSystem} {target path : String} {files : List String}
    (h : Collect.files c patterns fs target = .ok files) (hpath : path ∈ files) :
    (path = target ∨ ∃ entry, fs.entry target = .ok entry ∧ Reaches target entry path) ∧
      hasEnding c.endings path = true := by
  unfold Collect.files at h
  split at h
  · cases h
    cases hpath
  · rename_i entries hentry
    obtain ⟨hreaches, hending⟩ := mem_under h hpath
    exact ⟨.inr ⟨_, hentry, hreaches⟩, hending⟩
  · obtain ⟨this, hthis, h⟩ := bind_eq_ok_iff.1 h
    obtain rfl : (if this then [target] else []) = files := Except.ok.inj h
    cases this with
    | false => cases hpath
    | true =>
      obtain rfl := List.mem_singleton.1 hpath
      exact ⟨.inl rfl, hasEnding_of_isScanned hthis⟩

end

/-! ### Below the target -/

theorem mem_of_child? {name : String} {entries : List (String × Entry)} {entry : Entry}
    (h : Entry.child? name entries = some entry) : (name, entry) ∈ entries := by
  induction entries with
  | nil => cases h
  | cons x entries ih =>
    obtain ⟨n, e⟩ := x
    unfold Entry.child? at h
    split at h
    · rename_i hname
      cases h
      exact hname ▸ List.mem_cons_self
    · exact List.mem_cons_of_mem _ (ih h)

/-- Whatever path is followed, it leads to names without slashes. -/
theorem named_of_follow {components : List String} {above : List Entry} {entry found : Entry}
    (habove : ∀ e ∈ above, e.Named) (hentry : entry.Named)
    (h : Entry.follow above entry components = .ok found) : found.Named := by
  induction components generalizing above entry with
  | nil =>
    unfold Entry.follow at h
    split at h
    · cases h
    · cases h
      exact hentry
  | cons name rest ih =>
    unfold Entry.follow at h
    split at h
    · rename_i entries
      split at h
      · cases above with
        | nil => exact ih (List.forall_mem_nil _) hentry h
        | cons parent above =>
          obtain ⟨hparent, habove⟩ := List.forall_mem_cons.1 habove
          exact ih habove hparent h
      · split at h
        · cases h
        · rename_i e hchild
          have he : e.Named := by
            cases hentry with
            | directory _ inside => exact inside _ (mem_of_child? hchild)
          exact ih (List.forall_mem_cons.2 ⟨hentry, habove⟩) he h
    · cases h
    · cases h

section

variable {c : Config} {fs : FileSystem} {path : String} {excludes : List Value}
  {files : List String} (h : ofRequest c fs path excludes = .ok files)

include h

/-- **What a scan collects** has one of the endings of source files. -/
theorem hasEnding_of_mem_ofRequest {file : String} (hfile : file ∈ files) :
    hasEnding c.endings file = true := by
  unfold ofRequest at h
  split at h
  · cases h
  · exact (mem_files h hfile).2

/-- **What a scan collects** lies below its target. -/
theorem isUnder_of_mem_ofRequest (hnamed : fs.root.Named) {file : String} (hfile : file ∈ files) :
    Path.isUnder (fs.resolve path) file = true := by
  unfold ofRequest at h
  split at h
  · cases h
  · rcases (mem_files h hfile).1 with rfl | ⟨entry, hentry, hreaches⟩
    · exact Path.isUnder_refl _
    · exact isUnder_of_reaches hreaches (named_of_follow (List.forall_mem_nil _) hnamed hentry)
        (Path.isUnder_refl _)

end

end Collect

end TaintFlow
