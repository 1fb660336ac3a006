/-!
# Parse trees

A parse tree of a Java source.  Nodes have a type, a span of bytes, a mark that tells words of the
grammar from punctuation, and a field: their role in the parent.

Access to the children of a node yields them together with the proof that they are smaller, so
that functions on trees can recurse on what they find.
-/

namespace TaintFlow.Java

/-- A node of a parse tree. -/
structure Tree where
  /-- Name of the construct. -/
  type : String
  /-- Offset of the first byte. -/
  start : Nat
  /-- Offset of the byte after the last one. -/
  stop : Nat
  /-- False for keywords and punctuation. -/
  named : Bool := true
  /-- Role of the node in its parent. -/
  field : Option String := none
  children : List Tree := []
  deriving Repr

namespace Tree

instance : Inhabited Tree := ⟨⟨"", 0, 0, true, none, []⟩⟩

mutual

/-- The number of nodes of a tree. -/
def size : Tree → Nat
  | ⟨_, _, _, _, _, children⟩ => sizeAll children + 1
termination_by structural t => t

/-- The number of nodes of the trees. -/
def sizeAll : List Tree → Nat
  | [] => 0
  | t :: ts => t.size + sizeAll ts
termination_by structural ts => ts

end

theorem size_le_sizeAll {t : Tree} {ts : List Tree} (h : t ∈ ts) : t.size ≤ sizeAll ts := by
  induction ts with
  | nil => cases h
  | cons u us ih =>
    rcases List.mem_cons.1 h with rfl | h
    · simp [sizeAll]
    · have := ih h; simp [sizeAll]; omega

theorem size_lt_of_mem {t c : Tree} (h : c ∈ t.children) : c.size < t.size := by
  have := size_le_sizeAll h
  cases t
  simp only [size]
  exact Nat.lt_succ_of_le this

end Tree

/-- A tree that is smaller than `t`. -/
abbrev Subtree (t : Tree) := { c : Tree // c.size < t.size }

/-- What is smaller than a smaller tree is smaller. -/
def Subtree.trans {t : Tree} (c : Subtree t) (d : Subtree c.1) : Subtree t :=
  ⟨d.1, Nat.lt_trans d.2 c.2⟩

namespace Tree

/-- The children of a node. -/
def parts (t : Tree) : List (Subtree t) :=
  t.children.attach.map fun c => ⟨c.1, size_lt_of_mem c.2⟩

/-- Types of comment nodes. -/
def commentTypes : List String :=
  ["line_comment", "block_comment", "comment"]

/-- Whether a node is a comment. -/
def isComment (t : Tree) : Bool :=
  commentTypes.contains t.type

/-- Whether a node is a word of the grammar and no comment. -/
def isContent (t : Tree) : Bool :=
  t.named && !t.isComment

/-- The children of a node without comments and punctuation. -/
def content (t : Tree) : List (Subtree t) :=
  t.parts.filter (·.1.isContent)

/-- The first child of a node that is neither comment nor punctuation. -/
def firstContent? (t : Tree) : Option (Subtree t) :=
  t.parts.find? (·.1.isContent)

/-- The first child of a node in a role. -/
def child? (t : Tree) (field : String) : Option (Subtree t) :=
  t.parts.find? (·.1.field == some field)

/-- The children of a node in a role. -/
def childrenIn (t : Tree) (field : String) : List (Subtree t) :=
  t.parts.filter (·.1.field == some field)

/-- The first child among `content` with one of the given types. -/
def contentOf? (t : Tree) (types : List String) : Option (Subtree t) :=
  t.content.find? fun c => types.contains c.1.type

/-- Whether the first content of a node is its first child in a role. -/
def firstContentIs (t : Tree) (field : String) : Bool :=
  (t.children.findIdx? isContent).isSome
    && t.children.findIdx? isContent == t.children.findIdx? (·.field == some field)

end Tree

end TaintFlow.Java
