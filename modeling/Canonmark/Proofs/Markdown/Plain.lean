import Canonmark.Proofs.Markdown.Refusal
import Canonmark.Proofs.Markdown.Words

/-! Plain blocks: headings, paragraphs, quotes and lists of words, breaks and code. -/
namespace Canonmark.Markdown

/-- The nodes of lines: a text for each, and a soft break between two. -/
def lineNodes (ls : List String) : List Node :=
  lined (fun l => .leaf (.text l) none) (.leaf .softbreak none) ls

/-- A paragraph of lines. -/
def paragraphOf (ls : List String) : Node := .branch .paragraph none (lineNodes ls)

/-- One or more lines of words. -/
structure IsProse (ls : List String) : Prop where
  some : ls ≠ []
  words : ∀ l ∈ ls, IsWords l.toList

/-- Code that ends with its last line, if it has one, and holds only printable signs of ASCII. -/
structure IsCode (s : Chars) : Prop where
  ends : s = [] ∨ s.getLast? = some '\n'
  signs : ∀ c ∈ s, c = '\n' ∨ ' ' ≤ c ∧ c ≤ '~'

/-- A plain block in which quotes are nested at most so deep. -/
inductive IsPlain : (depth : Nat) → Node → Prop
  | heading {depth : Nat} (level : Level) {text : String} (words : IsWords text.toList) :
      IsPlain depth (.branch (.heading level) none [.leaf (.text text) none])
  | paragraph {depth : Nat} {ls : List String} (prose : IsProse ls) : IsPlain depth (paragraphOf ls)
  | thematicBreak {depth : Nat} : IsPlain depth (.leaf .thematicBreak none)
  | code {depth : Nat} {text : String} (code : IsCode text.toList) :
      IsPlain depth (.leaf (.codeBlock text none none) none)
  | quote {depth : Nat} {children : List Node} (some : children ≠ [])
      (below : ∀ n ∈ children, IsPlain depth n) :
      IsPlain (depth + 1) (.branch .blockQuote none children)

/-- An item that holds a paragraph. -/
def itemOf (ls : List String) : Node := .branch .item none [paragraphOf ls]

/-- What is said of a plain list of so many items. Only one that has two items can be loose, and no
item has a number of more than nine digits. -/
inductive Numbers (count : Nat) : ListData → Prop
  | bullet {tight : Bool} (parted : tight = false → 2 ≤ count) :
      Numbers count { listType := "bullet", tight := some (if tight then "true" else "false") }
  | ordered (start : Nat) (paren : Bool) {tight : Bool} (bounded : start + count ≤ 1000000000)
      (parted : tight = false → 2 ≤ count) :
      Numbers count {
        listType := "ordered"
        start := some (String.ofList (Text.Numeral.ofNat start))
        tight := some (if tight then "true" else "false")
        delimiter := some (if paren then "paren" else "period") }

/-- A list, each item of which is a paragraph. -/
inductive IsPlainList : Node → Prop
  | mk {data : ListData} {items : List (List String)} (some : items ≠ [])
      (prose : ∀ ls ∈ items, IsProse ls) (numbers : Numbers items.length data) :
      IsPlainList (.branch (.list data) none (items.map itemOf))

/-- A document of the given blocks. -/
def documentOf (blocks : List Node) : Node := .branch (.document defaultNamespace) none blocks

/-- A node that joins no sibling, and in which no siblings join. -/
def StaysApart (n : Node) : Prop := ∀ siblings, Merge.push siblings n = siblings ++ [n]

variable {ns : List Node}

theorem pushAll_of_apart (h : ∀ n ∈ ns, StaysApart n) (siblings : List Node) :
    Merge.pushAll siblings ns = siblings ++ ns := by
  induction ns generalizing siblings with
  | nil => rw [Merge.pushAll, List.append_nil]
  | cons n ns ih =>
    obtain ⟨hn, hns⟩ := List.forall_mem_cons.mp h
    rw [Merge.pushAll, hn, ih hns, List.append_assoc, List.singleton_append]

theorem apart_of_apart (h : ∀ n ∈ ns, StaysApart n) : Merge.apart ns = ns := by
  induction ns with
  | nil => rfl
  | cons n ns ih =>
    obtain ⟨hn, hns⟩ := List.forall_mem_cons.mp h
    rw [Merge.apart, hn, ih hns]
    rfl

theorem staysApart_branch {c : Container} {span : Option Span} (h : Merge.pushAll [] ns = ns)
    (notEmph : c ≠ .emph) (notStrong : c ≠ .strong) (notList : c.kind ≠ .list) :
    StaysApart (.branch c span ns) := by
  intro siblings
  rw [Merge.push_branch siblings c notEmph notStrong, Merge.merged_branch c notList, h]

theorem pushAll_lineNodes (ls : List String) : Merge.pushAll [] (lineNodes ls) = lineNodes ls := by
  have hpush : ∀ siblings : List Node, (∀ t span, siblings.getLast? ≠ some (.leaf (.text t) span)) →
      Merge.pushAll siblings (lineNodes ls) = siblings ++ lineNodes ls := by
    unfold lineNodes
    fun_induction lined (fun l => Node.leaf (.text l) none) (.leaf .softbreak none) ls with
    | case1 => exact fun siblings _ => by rw [Merge.pushAll, List.append_nil]
    | case2 l =>
      intro siblings hlast
      rw [Merge.pushAll, Merge.push]
      split
      · rename_i heq
        exact absurd heq (hlast _ _)
      · rfl
    | case3 l m ls ih =>
      intro siblings hlast
      rw [Merge.pushAll, Merge.push]
      split
      · rename_i heq
        exact absurd heq (hlast _ _)
      · rw [Merge.pushAll, Merge.push, ih _ (by simp)]
        · simp
        all_goals simp
  exact hpush [] (by simp)

theorem staysApart_paragraph (ls : List String) : StaysApart (paragraphOf ls) :=
  staysApart_branch (pushAll_lineNodes ls) (by simp) (by simp) (by simp [Container.kind])

theorem staysApart_item (ls : List String) : StaysApart (itemOf ls) :=
  staysApart_branch (staysApart_paragraph ls []) (by simp) (by simp) (by simp [Container.kind])

theorem IsPlain.staysApart {depth : Nat} {n : Node} (h : IsPlain depth n) : StaysApart n := by
  induction h with
  | heading level words =>
    exact staysApart_branch rfl (by simp) (by simp) (by simp [Container.kind])
  | paragraph => exact staysApart_paragraph _
  | thematicBreak | code => exact fun _ => by rw [Merge.push]; all_goals simp
  | quote _ _ ih =>
    exact staysApart_branch (pushAll_of_apart ih []) (by simp) (by simp) (by simp [Container.kind])

theorem IsPlainList.staysApart {n : Node} (h : IsPlainList n) : StaysApart n := by
  obtain ⟨_, _, _⟩ := h
  intro siblings
  have hitems : ∀ {items : List (List String)}, Merge.apart (items.map itemOf) = items.map itemOf :=
    apart_of_apart fun n hn => by
      obtain ⟨ls, _, rfl⟩ := List.mem_map.mp hn
      exact staysApart_item ls
  rw [Merge.push, hitems]

/-- Blocks that stay apart are written as they are. -/
theorem merged_documentOf (h : ∀ n ∈ ns, StaysApart n) :
    merged (documentOf ns) = documentOf ns := by
  rw [documentOf, merged, pushAll_of_apart h, List.nil_append]
  all_goals simp

end Canonmark.Markdown
