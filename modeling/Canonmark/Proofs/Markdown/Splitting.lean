import Canonmark.Proofs.Markdown.Leveled
import Canonmark.Proofs.Markdown.PlainRoundTrip
import Canonmark.Proofs.Node.RoundTrip

/-! Neither positions nor the way in which inline content is split into nodes makes a difference to
what is written. -/
namespace Canonmark.Markdown

theorem isReshaping_unlocated : IsReshaping unlocated (List.map unlocated) where
  foreign _ := by rw [unlocated]
  leaf _ _ := ⟨none, by rw [unlocated]⟩
  branch c _ children := ⟨none, by rw [unlocated, ite_self]⟩
  apart before n after _ := by rw [List.map_append, List.map_cons]
  inline ns inline n hn := by
    obtain ⟨m, hm, rfl⟩ := List.mem_map.mp hn
    rw [isInline_congr (kind?_unlocated m)]
    exact inline m hm
  isEmpty _ := List.isEmpty_map
  foreigns values := by
    rw [List.map_map]
    exact List.map_congr_left fun _ _ => by rw [Function.comp_apply, unlocated]

namespace Writer

variable {style : Style} {ns : List Node}

/-- A node that is written in the same way without its positions, wherever it stands. -/
structure IsWrittenUnlocated (style : Style) (n : Node) : Prop where
  node : node style (unlocated n) = node style n
  block : block style (unlocated n) = block style n

theorem inlines_unlocated (h : ∀ n ∈ ns, IsWrittenUnlocated style n) :
    inlines style (ns.map unlocated) = inlines style ns := by
  have heach : each style (ns.map unlocated) = each style ns := by
    induction ns with
    | nil => rfl
    | cons n ns ih =>
      obtain ⟨hn, hns⟩ := List.forall_mem_cons.mp h
      rw [List.map_cons, each, each, hn.node, ih hns]
  have hforeign : refuseForeign (ns.map unlocated) = refuseForeign ns :=
    refuseForeign_map kind?_unlocated (fun v => by rw [unlocated]) ns
  rw [inlines, inlines, hforeign, heach]

theorem blocks_unlocated (h : ∀ n ∈ ns, IsWrittenUnlocated style n) :
    blocks style (ns.map unlocated) = blocks style ns ∧
      ∀ saved, run style saved (ns.map unlocated) = run style saved ns := by
  induction ns with
  | nil => exact ⟨rfl, fun _ => rfl⟩
  | cons n ns ih =>
    obtain ⟨hn, hns⟩ := List.forall_mem_cons.mp h
    obtain ⟨hblocks, hrun⟩ := ih hns
    have hinline := isReshaping_unlocated.isInline n
    constructor
    · rw [List.map_cons, blocks, blocks, hinline, hn.node, hn.block, hblocks]
      simp only [hrun]
    · intro saved
      rw [List.map_cons, run, run, hinline, hn.node, hn.block, hblocks]
      simp only [hrun]

theorem items_unlocated (h : ∀ n ∈ ns, IsWrittenUnlocated style n) (data : ListData) (tight : Bool)
    (number : Int) (first : Bool) :
    items style data tight number first (ns.map unlocated) =
      items style data tight number first ns := by
  induction ns generalizing number first with
  | nil => rfl
  | cons n ns ih =>
    obtain ⟨hn, hns⟩ := List.forall_mem_cons.mp h
    rw [List.map_cons, items, items, hn.node]
    simp only [ih hns]

theorem node_unlocated_branch {children : List Node}
    (h : ∀ n ∈ children, IsWrittenUnlocated style n) (c : Container) (span : Option Span) :
    node
      style (.branch c none (children.map unlocated)) = node style (.branch c span children) := by
  have hblocks := (blocks_unlocated h).1
  have hinlines := inlines_unlocated h
  cases c with
  | document xmlns | clause clauseid src clauseText => rw [node, node, hblocks]
  | blockQuote | item => rw [node, node, hblocks]
  | paragraph | heading level => rw [node, node, hinlines]
  | emph | strong => rw [node, node, hinlines]
  | link dest title | image dest title => rw [node, node, hinlines]
  | templateVariable id value | computedVariable value =>
    rw [node, node, hinlines, List.isEmpty_map]
  | list data =>
    rw [node, node, isReshaping_unlocated.isWrittenTight]
    simp only [items_unlocated h]

/-- Positions make no difference to what is written. -/
theorem isWrittenUnlocated (style : Style) (n : Node) : IsWrittenUnlocated style n := by
  induction n using Node.inductionOnChildren with
  | leaf l span =>
    have hunit : ∀ s, BlockUnit.ofBlock (.leaf l s) = [.single (.leaf l s)] := by
      intro s
      rw [BlockUnit.ofBlock]
      all_goals simp
    have hnode : node style (.leaf l none) = node style (.leaf l span) := by rw [node, node]
    rw [← unlocated.eq_1 l span] at hnode
    refine ⟨hnode, ?_⟩
    rw [block_eq, block_eq, isReshaping_unlocated.ofBlock, hunit]
    simp [writeUnits, writeUnit, BlockUnit.reshaped, hnode]
  | branch c span children ih =>
    have hnode := node_unlocated_branch ih c span
    have htransparent := isReshaping_unlocated.isTransparent (.branch c span children)
    rw [unlocated] at htransparent
    constructor
    · rw [unlocated, hnode]
    · rw [unlocated, block, block, htransparent, (blocks_unlocated ih).1, hnode]
  | foreign v => exact ⟨by rw [unlocated], by rw [unlocated]⟩

/-- What is written for a tree is told by the tree with all neighbours folded. -/
theorem node_deepMerge (style : Style) (n : Node) :
    node style (deepMerge n) = node style (merged n) := by
  rw [← unlocated_merged, (isWrittenUnlocated style (merged n)).node]

theorem IsLeveled.visit_eq_of_deepMerge_eq {visit : Node → Writing Unit}
    (leveled : IsLeveled style visit) {n m : Node} (same : deepMerge n = deepMerge m) :
    visit n = visit m := by
  rw [leveled.eq_merged, leveled.eq_merged, ← node_deepMerge, same, node_deepMerge]

theorem document_of_kind? {n : Node} (h : n.kind? ≠ some .document) :
    document style n = throw (.notDocument n.typeName) := by
  cases n with
  | branch c span children => cases c <;> first | rfl | exact absurd rfl h
  | _ => rfl

theorem document_eq_of_deepMerge_eq {n m : Node} (same : deepMerge n = deepMerge m)
    (style : Style) : document style n = document style m := by
  have hnode : node style (merged n) = node style (merged m) :=
    (isLeveled_merged style).visit_eq_of_deepMerge_eq same
  have hkind : n.kind? = m.kind? := by rw [← (kind?_deepMerge n).1, same, (kind?_deepMerge m).1]
  have htype : n.typeName = m.typeName := by
    rw [← (kind?_deepMerge n).2, same, (kind?_deepMerge m).2]
  by_cases hdocument : n.kind? = some .document
  · obtain ⟨xmlns, span, children, rfl⟩ := Schema.eq_document_of_kind? hdocument
    obtain ⟨xmlns', span', children', rfl⟩ := Schema.eq_document_of_kind? (hkind ▸ hdocument)
    rw [document, document, hnode]
  · rw [document_of_kind? hdocument, document_of_kind? (hkind ▸ hdocument), htype]

end Writer

/-- Documents with the same folded tree are written alike, whatever the options and whether they are
given as trees or as values: as one text, or refused with one fault. So are a document and what it
becomes when a text, a code, an emphasis or a strong emphasis in it is split into parts, if the node
does not stand directly among the children of a list. -/
theorem toMarkdown_of_deepMerge (options : Option Options) (overrides : Members) :
    (∀ (x y : WriterInput) (n m : Node), x.node = .ok n → y.node = .ok m →
      deepMerge n = deepMerge m →
      toMarkdown x options overrides = toMarkdown y options overrides) ∧
    (∀ n m, IsSplit n m → deepMerge n = deepMerge m ∧
      toMarkdown (.tree n) options overrides = toMarkdown (.tree m) options overrides) := by
  have hwrite : ∀ (x y : WriterInput) (n m : Node), x.node = .ok n → y.node = .ok m → deepMerge n =
      deepMerge m → toMarkdown x options overrides = toMarkdown y options overrides := by
    intro x y n m hx hy same
    have hsame : ∀ style, write style n = write style m :=
      fun style => by rw [write, write, Writer.document_eq_of_deepMerge_eq same]
    rw [toMarkdown, toMarkdown, hx, hy]
    simp only [bind, Except.bind, hsame]
  exact ⟨hwrite, fun n m split => ⟨split.deepMerge_eq, hwrite _ _ n m rfl rfl split.deepMerge_eq⟩⟩

/-- A paragraph of strong texts, each with its position. -/
def strongTexts (parts : List (List Node × Option Span)) : Node :=
  .branch .paragraph none (parts.map fun part => .branch .strong part.2 part.1)

/-- A strong text in two parts, of which the first one has a position. -/
def greetingParts : List (List Node × Option Span) :=
  [([.leaf (.text "hello ") none], some ⟨1, 1, 1, 10⟩), ([.leaf (.text "world") none], none)]

def greetings (parts : List (List Node × Option Span)) : Node :=
  .branch (.document defaultNamespace) none [strongTexts parts]

/-- The text of both parts, split in another place. -/
def greeting : Node := greetings [([.leaf (.text "hello") none, .leaf (.text " world") none], none)]

theorem deepMerge_greeting : deepMerge (greetings greetingParts) = deepMerge greeting := by
  rw [← merged_unlocated, ← merged_unlocated]
  simp [greetings, greetingParts, greeting, strongTexts, unlocated, merged,
    Merge.pushAll, Merge.push]

theorem isSplit_greeting :
    IsSplit (greetings [(greetingParts.flatMap Prod.fst, none)]) (greetings greetingParts) :=
  .deeper _
    (.here (c := .paragraph) nofun (@Parts.strong greetingParts (by decide) none) [] [] none none)
    [] [] none none

theorem toMarkdown_of_greeting :
    deepMerge (greetings greetingParts) = deepMerge greeting ∧
      IsSplit (greetings [(greetingParts.flatMap Prod.fst, none)]) (greetings greetingParts) ∧
      toMarkdown (.tree (greetings greetingParts)) none [] = toMarkdown (.tree greeting) none [] ∧
      toMarkdown (.tree (greetings [(greetingParts.flatMap Prod.fst, none)])) none [] =
        toMarkdown (.tree (greetings greetingParts)) none [] :=
  ⟨deepMerge_greeting, isSplit_greeting,
    (toMarkdown_of_deepMerge none []).1 _ _ _ _ rfl rfl deepMerge_greeting,
    ((toMarkdown_of_deepMerge none []).2 _ _ isSplit_greeting).2⟩

/-- A tight list with texts in place of items. -/
def listedTexts (texts : List String) : Node :=
  .branch (.document defaultNamespace) none
    [.branch (.list { listType := "bullet", tight := some "true" }) none
      (texts.map fun text => .leaf (.text text) none)]

theorem isTyped_listedTexts (texts : List String) : (listedTexts texts).IsTyped := by
  refine .branch _ nofun fun n hn => ?_
  rw [List.mem_singleton.mp hn]
  refine .branch _ nofun fun n hn => ?_
  obtain ⟨text, -, rfl⟩ := List.mem_map.mp hn
  exact .leaf _ nofun

/-- The children of a list stay apart, so that a text among them is not split for free. -/
theorem toMarkdown_of_listedTexts :
    (listedTexts ["ab"]).IsTyped ∧ (listedTexts ["a", "b"]).IsTyped ∧
      Parts (.leaf (.text "ab") none) [.leaf (.text "a") none, .leaf (.text "b") none] ∧
      toMarkdown (.tree (listedTexts ["ab"])) none [] = .ok "ab" ∧
      toMarkdown (.tree (listedTexts ["a", "b"])) none [] = .ok "a\nb" := by
  have hmerged : ∀ text, merged (listedTexts [text]) = listedTexts [text] := fun _ => rfl
  have hsplit : merged (listedTexts ["a", "b"]) = listedTexts ["a", "b"] := rfl
  have hone : write {} (listedTexts ["ab"]) = .ok "ab" := by
    rw [write, Writer.document.eq_def, hmerged, listedTexts]
    simp only [List.map_cons, List.map_nil, Writer.node, Writer.blocks, Writer.block, isInline,
      isTransparent, Bool.false_eq_true, if_false, Writer.items]
    rfl
  have htwo : write {} (listedTexts ["a", "b"]) = .ok "a\nb" := by
    rw [write, Writer.document.eq_def, hsplit, listedTexts]
    simp only [List.map_cons, List.map_nil, Writer.node, Writer.blocks, Writer.block, isInline,
      isTransparent, Bool.false_eq_true, if_false, Writer.items]
    rfl
  exact ⟨isTyped_listedTexts _, isTyped_listedTexts _,
    @Parts.text [("a", none), ("b", none)] (by decide) none,
    toMarkdown_of_write comesTo_default hone, toMarkdown_of_write comesTo_default htwo⟩

end Canonmark.Markdown
