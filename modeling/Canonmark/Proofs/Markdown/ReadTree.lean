import Canonmark.Proofs.Markdown.Growing
import Canonmark.Proofs.Markdown.Parting
import Canonmark.Proofs.Markdown.Phrases

/-! The tree that a markdown text is read as: every text is read, and each block gives a node of its
class. -/
namespace Canonmark.Markdown

def Wrapper.container : Wrapper → Container
  | .paragraph => .paragraph
  | .blockQuote => .blockQuote
  | .item => .item
  | .emph => .emph
  | .strong => .strong

def Sign.leaf : Sign → Leaf
  | .thematicBreak => .thematicBreak
  | .softbreak => .softbreak
  | .linebreak => .linebreak

mutual

/-- The node of a phrase. -/
def Token.phrase : Token → List Node
  | .text raw => [.leaf (.text (Token.decoded raw)) none]
  | .verbatim v raw => [.leaf (v.leaf raw) none]
  | .sign s => [.leaf s.leaf none]
  | .wrapper w content => [.branch w.container none (phrases content)]
  | .reference r (.str destination) (.str title) content =>
    [.branch (r.container destination (Token.decoded title)) none (phrases content)]
  | _ => []

/-- The nodes of inline content. -/
def Token.phrases : List Token → List Node
  | [] => []
  | t :: ts => Token.phrase t ++ phrases ts

end

namespace Block

variable (ds : List Definition)

mutual

/-- The node of a block, the definitions of its document being given. `final` tells whether it ends
an item. -/
def nodes (final : Bool) : Block → List Node
  | .blank | .definition _ => []
  | .thematicBreak => [.leaf .thematicBreak none]
  | .heading level text =>
    [.branch (.heading level) none (Token.phrases (Reader.headingContent ds text))]
  | .paragraph text => [.branch .paragraph none (Token.phrases (Inline.tokens ds text))]
  | .code info text =>
    [.leaf (.codeBlock (String.ofList text) (codeInfo (String.ofList (info.getD []))) none) none]
  | .html text => [.leaf (.htmlBlock (String.ofList text) none) none]
  | .quote children => [.branch .blockQuote none (nodesIn false children)]
  | .list marker items =>
    [.branch (.list (listDataOf (Reader.numbering? marker) (!isLoose final items))) none
      (itemNodes items)]

/-- The nodes of blocks, which may be those of an item. -/
def nodesIn (inItem : Bool) : List Block → List Node
  | [] => []
  | b :: bs => nodes (inItem && !bs.any Block.hasContent) b ++ nodesIn inItem bs

def itemNodes : List (List Block) → List Node
  | [] => []
  | item :: items => .branch .item none (nodesIn true item) :: itemNodes items

end

end Block

variable {ts : List Token} {t : Token}

theorem Gives.eventsOf_cons {ns others : List Node} (h : Gives ns (Token.events t))
    (h' : Gives others (Token.eventsOf ts)) : Gives (ns ++ others) (Token.eventsOf (t :: ts)) :=
  h.token.eventsOf_append h'

theorem gives_phrases_of_forall (h : ∀ t ∈ ts, Gives t.phrase (Token.events t)) :
    Gives (Token.phrases ts) (Token.eventsOf ts) := by
  induction ts with
  | nil => exact gives_nil
  | cons t ts ih =>
    obtain ⟨ht, hts⟩ := List.forall_mem_cons.mp h
    exact ht.eventsOf_cons (ih hts)

theorem Token.IsPhrase.gives (h : t.IsPhrase) : Gives t.phrase (Token.events t) := by
  induction h with
  | text raw => exact gives_text raw
  | verbatim inline raw => exact gives_verbatim _ raw
  | @sign s inline => exact gives_sign (by cases s <;> rfl)
  | @wrapper w content inline below ih =>
    exact gives_wrapper (by cases w <;> rfl) (gives_phrases_of_forall ih)
  | reference r destination title below ih =>
    exact gives_reference r destination title (gives_phrases_of_forall ih)

theorem gives_phrases (h : ∀ t ∈ ts, t.IsPhrase) : Gives (Token.phrases ts) (Token.eventsOf ts) :=
  gives_phrases_of_forall fun t ht => (h t ht).gives

theorem isPhrase_headingContent (ds : List Definition) (text : Chars) :
    ∀ t ∈ Reader.headingContent ds text, t.IsPhrase := by
  rw [Reader.headingContent]
  split
  · exact List.forall_mem_singleton.mpr (.text "")
  · exact Inline.isPhrase_tokens ds text

variable {ds : List Definition}

mutual

theorem Block.gives_nodes (final : Bool) : ∀ b : Block,
    Gives (Block.nodes ds final b) (Token.events (Reader.token ds final b))
  | .blank | .definition _ => gives_nil
  | .thematicBreak => gives_sign rfl
  | .heading level text => gives_heading level (gives_phrases (isPhrase_headingContent ds text))
  | .paragraph text =>
    gives_wrapper (c := .paragraph) rfl (gives_phrases (Inline.isPhrase_tokens ds text))
  | .code _ _ => gives_code _ _
  | .html _ => gives_verbatim .htmlBlock _
  | .quote children => gives_wrapper (c := .blockQuote) rfl (Block.gives_nodesIn false children)
  | .list _ items => gives_list _ _ (Block.gives_itemNodes items)

theorem Block.gives_nodesIn (inItem : Bool) : ∀ bs : List Block,
    Gives (Block.nodesIn ds inItem bs) (Token.eventsOf (Reader.tokensIn ds inItem bs))
  | [] => gives_nil
  | b :: bs => (Block.gives_nodes _ b).eventsOf_cons (Block.gives_nodesIn inItem bs)

theorem Block.gives_itemNodes : ∀ items : List (List Block),
    Gives (Block.itemNodes ds items) (Token.eventsOf (Reader.itemTokens ds items))
  | [] => gives_nil
  | item :: items =>
    (gives_wrapper (c := .item) rfl (Block.gives_nodesIn true item)).eventsOf_cons
      (Block.gives_itemNodes items)

end

/-- Every text is read as the document of its blocks. -/
theorem fromMarkdown_eq (text : String) :
    fromMarkdown (.text text) none [] = .ok (documentOf
      (Block.nodesIn (Block.definitionsOf (blocksOf text.toList)) false (blocksOf text.toList))) :=
  fromMarkdown_of_gives (Block.gives_nodesIn false _)

theorem isMadeOf_leaf {p : Kind → Bool} {l : Leaf} (h : p l.kind) : IsMadeOf p (.leaf l none) := by
  intro m hm
  rw [List.mem_singleton.mp hm]
  exact h

theorem isMadeOf_branch {p : Kind → Bool} {c : Container} {children : List Node} (h : p c.kind)
    (below : ∀ n ∈ children, IsMadeOf p n) : IsMadeOf p (.branch c none children) := by
  intro m hm
  obtain rfl | ⟨n, hn, hm⟩ := mem_preorder_branch.mp hm
  · exact h
  · exact below n hn m hm

theorem isInline_phrases_of_forall (h : ∀ t ∈ ts, ∀ n ∈ t.phrase, IsMadeOf isInlineKind n) :
    ∀ n ∈ Token.phrases ts, IsMadeOf isInlineKind n := by
  induction ts with
  | nil => exact fun n hn => absurd hn (List.not_mem_nil)
  | cons t ts ih =>
    obtain ⟨ht, hts⟩ := List.forall_mem_cons.mp h
    exact List.forall_mem_append.mpr ⟨ht, ih hts⟩

theorem Token.IsPhrase.isInline (h : t.IsPhrase) : ∀ n ∈ t.phrase, IsMadeOf isInlineKind n := by
  induction h with
  | text raw => exact List.forall_mem_singleton.mpr (isMadeOf_leaf rfl)
  | @verbatim v inline raw =>
    refine List.forall_mem_singleton.mpr (isMadeOf_leaf ?_)
    cases v <;> first | rfl | exact absurd rfl inline
  | @sign s inline =>
    refine List.forall_mem_singleton.mpr (isMadeOf_leaf ?_)
    cases s <;> first | rfl | exact absurd rfl inline
  | @wrapper w content inline below ih =>
    refine List.forall_mem_singleton.mpr (isMadeOf_branch ?_ (isInline_phrases_of_forall ih))
    obtain rfl | rfl := inline <;> rfl
  | @reference r destination title content below ih =>
    refine List.forall_mem_singleton.mpr (isMadeOf_branch ?_ (isInline_phrases_of_forall ih))
    cases r <;> rfl

theorem isInline_phrases (h : ∀ t ∈ ts, t.IsPhrase) :
    ∀ n ∈ Token.phrases ts, IsMadeOf isInlineKind n :=
  isInline_phrases_of_forall fun t ht => (h t ht).isInline

namespace Block

variable {b : Block} {bs : List Block} {final inItem : Bool}

theorem kinds_nodes (ds : List Definition) (final : Bool) (b : Block) :
    (nodes ds final b).map Node.kind? = b.kind?.toList.map some := by
  cases b <;> rw [nodes] <;> rfl

/-- Each block gives a node of its class. -/
theorem kinds_nodesIn (ds : List Definition) (inItem : Bool) (bs : List Block) :
    (nodesIn ds inItem bs).map Node.kind? = (kindsOf bs).map some := by
  induction bs with
  | nil => rw [nodesIn]; rfl
  | cons b bs ih =>
    have hcons : kindsOf (b :: bs) = b.kind?.toList ++ kindsOf bs := by
      rw [kindsOf, List.filterMap_cons]
      cases b.kind? <;> rfl
    rw [nodesIn, List.map_append, kinds_nodes, ih, hcons, List.map_append]

/-- A node that is read as a block of a document. -/
inductive IsReadBlock : Node → Prop
  | leaf {l : Leaf} (h : isInline (.leaf l none) = false) : IsReadBlock (.leaf l none)
  | text {c : Container} {children : List Node}
      (text : c = .paragraph ∨ ∃ level, c = .heading level)
      (inline : ∀ n ∈ children, IsMadeOf isInlineKind n) :
      IsReadBlock (.branch c none children)
  | quote (children : List Node) : IsReadBlock (.branch .blockQuote none children)
  | list (marker : Marker) (tight : Bool) {items : List Node}
      (isItem : ∀ n ∈ items, n.kind? = some .item) :
      IsReadBlock (.branch (.list (listDataOf (Reader.numbering? marker) tight)) none items)

theorem kind?_of_mem_itemNodes {items : List (List Block)} {n : Node} (h : n ∈ itemNodes ds items) :
    n.kind? = some .item := by
  induction items with
  | nil =>
    rw [itemNodes] at h
    cases h
  | cons item items ih =>
    rw [itemNodes] at h
    obtain rfl | h := List.mem_cons.mp h
    · rfl
    · exact ih h

theorem isReadBlock_of_mem_nodes {n : Node} (h : n ∈ nodes ds final b) : IsReadBlock n := by
  cases b with
  | blank | definition d =>
    rw [nodes] at h
    cases h
  | thematicBreak | code info text | html text =>
    rw [nodes] at h
    rw [List.mem_singleton.mp h]
    exact .leaf rfl
  | heading level text =>
    rw [nodes] at h
    rw [List.mem_singleton.mp h]
    exact .text (.inr ⟨level, rfl⟩) (isInline_phrases (isPhrase_headingContent ds text))
  | paragraph text =>
    rw [nodes] at h
    rw [List.mem_singleton.mp h]
    exact .text (.inl rfl) (isInline_phrases (Inline.isPhrase_tokens ds text))
  | quote children =>
    rw [nodes] at h
    rw [List.mem_singleton.mp h]
    exact .quote _
  | list marker items =>
    rw [nodes] at h
    rw [List.mem_singleton.mp h]
    exact .list marker _ fun n => kind?_of_mem_itemNodes

end Block

end Canonmark.Markdown
