import Canonmark.Proofs.Markdown.ItemText
import Canonmark.Proofs.Markdown.PlainRoundTrip
import Canonmark.Proofs.Markdown.Uniform

/-! Items of blocks that have been read: how they are written, and what is read of a block alone. -/
namespace Canonmark.Markdown

/-- A document of one tight bullet list, of which the only item holds the blocks. -/
def itemDocument (ns : List Node) : Node :=
  documentOf [.branch (.list (listDataOf none true)) none [.branch .item none ns]]

variable {n : Node} {ns : List Node} {s : Chars} {ss : List Chars}

theorem Block.IsReadBlock.isInline_eq (h : Block.IsReadBlock n) : isInline n = false := by
  cases h with
  | leaf inline => exact inline
  | text text inline => obtain rfl | ⟨level, rfl⟩ := text <;> rfl
  | quote children | list marker tight isItem => rfl

theorem isInline_merged (n : Node) : isInline (merged n) = isInline n := by
  cases n with
  | branch c span children => cases c <;> rfl
  | leaf x span | foreign v => rfl

/-- Blocks are not joined with their siblings. -/
theorem pushAll_of_blocks (siblings : List Node) (h : ∀ n ∈ ns, isInline n = false) :
    Merge.pushAll siblings ns = siblings ++ ns.map merged := by
  induction ns generalizing siblings with
  | nil => simp [Merge.pushAll]
  | cons n ns ih =>
    obtain ⟨hn, hns⟩ := List.forall_mem_cons.mp h
    have hpush : Merge.push siblings n = siblings ++ [merged n] := by
      refine push_of_apart fun m _ => Bool.eq_false_iff.mpr fun hfolds => ?_
      obtain ⟨_, _, _, _, -, rfl⟩ | ⟨_, _, _, _, -, rfl⟩ | ⟨c, _, _, _, _, rfl | rfl, -, rfl⟩ :=
        folds_cases hfolds
      all_goals cases hn
    rw [Merge.pushAll, hpush, ih _ hns, List.map_cons, List.append_assoc]
    rfl

theorem merged_itemDocument (h : ∀ n ∈ ns, isInline n = false) :
    merged (itemDocument ns) = itemDocument (ns.map merged) := by
  have hitem : merged (.branch .item none ns) = .branch .item none (ns.map merged) := by
    rw [Merge.merged_branch .item (by simp [Container.kind]), pushAll_of_blocks [] h]
    rfl
  rw [itemDocument, documentOf, Merge.merged_branch _ (by simp [Container.kind]),
    pushAll_of_blocks [] (by simp [isInline]), List.nil_append, List.map_singleton, merged,
    apart_eq, List.map_singleton, hitem]
  rfl

namespace Writer

variable {style : Style} {l l₁ : Layout} {indent : Nat}

theorem block_of_isReadBlock (h : Block.IsReadBlock n) (style : Style) :
    block style (merged n) = (do startBlock; node style (merged n)) := by
  cases h with
  | @leaf x inline => exact block_leaf style x none
  | @text c children text inline =>
    obtain rfl | ⟨level, rfl⟩ := text
    · rw [Merge.merged_branch .paragraph (by simp [Container.kind])]
      refine block_branch ?_ style
      simpa [isTransparent] using fun n hn => isInline_of_madeOf (isInline_pushAll inline n hn)
    · exact block_branch rfl style
  | quote children | list marker tight isItem => exact block_branch rfl style

theorem exists_isWrittenAt (h : Block.IsReadBlock n) (hrun : node style (merged n) l = .ok () l₁) :
    ∃ s, IsWrittenAt style l.indent (merged n) s := by
  obtain ⟨s, hs⟩ := isUniform_of_isReadBlock h l l₁ hrun
  exact ⟨s, (isInline_merged n).trans h.isInline_eq, block_of_isReadBlock h style, hs⟩

/-- The layout on which the blocks of the only item are written. -/
def onlyItem (tight : Bool) : Layout where
  indent := 2
  tight := tight
  markers := [(['-', ' '], tight)]

/-- Whether the blocks of the only item are written without blank lines. -/
def isPacked (ns : List Node) : Bool :=
  isWrittenTight {} (listDataOf none true) [.branch .item none ns]

theorem node_itemDocument (ns : List Node) :
    node {} (itemDocument ns) {} = (do
      modify fun l => { l with markers := (['-', ' '], isPacked ns) :: l.markers }
      node {} (.branch .item none ns)
      modify fun l => { l with markers := l.markers.tail } : Writing Unit) { first := false } := by
  have hnone : blocks {} [] = pure () := by rw [blocks]
  have hstart : startBlock {} = .ok () { first := false } := rfl
  have hnumber : startNumber (listDataOf none true) = pure 1 := rfl
  have hitems : items {} (listDataOf none true) (isPacked ns) 1 true [.branch .item none ns] = (do
      modify fun l => { l with markers := (['-', ' '], isPacked ns) :: l.markers }
      node {} (.branch .item none ns)
      modify fun l => { l with markers := l.markers.tail } : Writing Unit) := by
    rw [items, items]
    rfl
  rw [itemDocument, documentOf, node, blocks, hnone, if_neg (by simp [isInline]), block_branch rfl,
    bind_assoc, run_bind_of_ok hstart, bind_pure_unit, node, hnumber, pure_bind]
  exact congrFun hitems { first := false }

theorem node_itemDocument_of_blocks {out : List Chars} (h : blocks {} ns (onlyItem (isPacked ns)) =
      .ok () { onlyItem (isPacked ns) with first := false, out }) :
    node {} (itemDocument ns)
      {} = .ok () { first := false, out := [itemText ['-', ' '] out.reverse.flatten] } := by
  rw [node_itemDocument]
  have hpush :
      (modify fun l => { l with markers := (['-', ' '], isPacked ns) :: l.markers } : Writing PUnit)
      { first := false } = .ok ⟨⟩ { first := false, markers := [(['-', ' '], isPacked ns)] } :=
    rfl
  have hblocks :
      blocks {} ns (insideItem { first := false, markers := [(['-', ' '], isPacked ns)] }) =
      .ok () { onlyItem (isPacked ns) with first := false, out } :=
    h
  rw [run_bind_of_ok hpush, run_bind_of_ok (node_item hblocks)]
  rfl

theorem exists_of_node_itemDocument (h : node {} (itemDocument ns) {} = .ok () l) :
    ∃ l₁, blocks {} ns (onlyItem (isPacked ns)) = .ok () l₁ := by
  rw [node_itemDocument] at h
  obtain ⟨_, l₁, hpush, h⟩ := run_bind_eq_ok h
  cases hpush
  obtain ⟨_, l₂, hitem, -⟩ := run_bind_eq_ok h
  exact exists_of_node_item hitem

/-- The only item is written with its blocks under each other. -/
theorem write_itemDocument (blocks : ∀ m ∈ n :: ns, isInline m = false)
    (hn : IsWrittenAt {} 2 (merged n) s)
    (h : List.Forall₂ (IsWrittenAt {} 2) (ns.map merged) ss) (some : s ≠ []) :
    write {} (itemDocument (n :: ns)) = .ok (String.ofList (Text.trim ('-' :: ' ' :: (s ++
      ss.flatMap (separator (isPacked ((n :: ns).map merged)) 2 ++ ·))))) := by
  obtain ⟨out, hblocks, hout⟩ :=
    blocks_of_isWrittenAt (l := onlyItem (isPacked ((n :: ns).map merged))) hn h rfl
  have hnode := node_itemDocument_of_blocks hblocks
  have hmerged := merged_itemDocument blocks
  rw [List.map_cons] at hmerged
  rw [hout, ← hmerged] at hnode
  refine (write_of_node hnode).trans ?_
  simp [Layout.text, onlyItem, itemText, some]

end Writer
/-- The text of a block in an item. -/
def textInItem (n : Node) : Chars :=
  match Writer.node {} (merged n) { indent := 2 } with
  | .ok _ l => Writer.Layout.text l
  | .error .. => []

/-- A block that is given back where it is alone in the item. Its text has ink at both ends, and
nothing is defined in it. -/
structure StandsAlone (n : Node) : Prop where
  returns : (do
    let text ← toMarkdown (.tree (itemDocument [n])) none []
    fromMarkdown (.text text) none []) = .ok (itemDocument [n])
  bounded : Text.Bounded Text.isBlank (textInItem n)
  plain : Block.definitionsOf (blocksOf ('-' :: ' ' :: textInItem n)) = []

/-- Trimming takes nothing from a text after a marker, if it ends in ink. -/
theorem trim_item (h : ∃ d ∈ s.getLast?, Text.isBlank d = false) :
    Text.trim ('-' :: ' ' :: s) = '-' :: ' ' :: s := by
  obtain ⟨d, hd, hink⟩ := h
  obtain ⟨init, rfl⟩ := List.getLast?_eq_some_iff.mp hd
  refine Text.Bounded.trim ⟨⟨'-', rfl, rfl⟩, d, ?_, hink⟩
  rw [← List.cons_append, ← List.cons_append, List.getLast?_concat]
  rfl

variable {ds : List Definition} {bs : List Block} {b : Block} {inside final : Bool}

theorem exists_of_mem_nodesIn (h : n ∈ Block.nodesIn ds inside bs) :
    ∃ b ∈ bs, ∃ final, n ∈ Block.nodes ds final b := by
  induction bs with
  | nil =>
    rw [Block.nodesIn] at h
    cases h
  | cons b bs ih =>
    rw [Block.nodesIn, List.mem_append] at h
    obtain h | h := h
    · exact ⟨b, List.mem_cons_self, _, h⟩
    · obtain ⟨b', hb', hn⟩ := ih h
      exact ⟨b', List.mem_cons_of_mem b hb', hn⟩

theorem isReadBlock_of_mem_nodesIn (h : n ∈ Block.nodesIn ds inside bs) : Block.IsReadBlock n := by
  obtain ⟨b, -, final, hn⟩ := exists_of_mem_nodesIn h
  exact Block.isReadBlock_of_mem_nodes hn

theorem kindsOf_of_nodesIn (h : Block.nodesIn ds inside bs = [n]) :
    ∃ k, n.kind? = some k ∧ kindsOf bs = [k] := by
  have hkinds := Block.kinds_nodesIn ds inside bs
  rw [h, List.map_singleton] at hkinds
  obtain ⟨k, hk⟩ := List.length_eq_one_iff.mp
    (show (kindsOf bs).length = 1 by simpa using congrArg List.length hkinds.symm)
  rw [hk, List.map_singleton] at hkinds
  exact ⟨k, List.singleton_injective hkinds, hk⟩

theorem exists_of_list_mem_nodes {data : ListData}
    (h : .branch (.list data) none ns ∈ Block.nodes ds final b) :
    ∃ m items, b = .list m items ∧ Block.itemNodes ds items = ns := by
  cases b with
  | list m items =>
    rw [Block.nodes, List.mem_singleton] at h
    cases h
    exact ⟨m, items, rfl, rfl⟩
  | blank | definition d | thematicBreak | heading level text | paragraph text
      | code info text | html text
    | quote children => simp [Block.nodes] at h

theorem exists_of_itemNodes {items : List (List Block)}
    (h : Block.itemNodes ds items = [.branch .item none ns]) :
    ∃ item, items = [item] ∧ Block.nodesIn ds true item = ns := by
  cases items with
  | nil =>
    rw [Block.itemNodes] at h
    cases h
  | cons item items =>
    rw [Block.itemNodes] at h
    obtain ⟨hitem, hrest⟩ := List.cons.inj h
    cases items with
    | nil =>
      cases hitem
      exact ⟨item, rfl, rfl⟩
    | cons item' items =>
      rw [Block.itemNodes] at hrest
      cases hrest

/-- What is read as a document of one item. -/
theorem exists_of_fromMarkdown {text : String}
    (h : fromMarkdown (.text text) none [] = .ok (itemDocument ns)) :
    Block.nodesIn (Block.definitionsOf (blocksOf text.toList)) false (blocksOf text.toList) =
        [.branch (.list (listDataOf none true)) none [.branch .item none ns]] ∧
      ∃ m item, .list m [item] ∈ blocksOf text.toList ∧
        Block.nodesIn (Block.definitionsOf (blocksOf text.toList)) true item = ns := by
  rw [fromMarkdown_eq, itemDocument] at h
  have hnodes := (Node.branch.inj (Except.ok.inj h)).2.2
  refine ⟨hnodes, ?_⟩
  obtain ⟨b, hb, final, hlist⟩ := exists_of_mem_nodesIn (hnodes ▸ List.mem_cons_self)
  obtain ⟨m, items, rfl, hitems⟩ := exists_of_list_mem_nodes hlist
  obtain ⟨item, rfl, hitem⟩ := exists_of_itemNodes hitems
  exact ⟨m, item, hb, hitem⟩

namespace StandsAlone

theorem exists_text (h : StandsAlone n) :
    ∃ text, toMarkdown (.tree (itemDocument [n])) none [] =
      .ok text ∧ fromMarkdown (.text text) none [] = .ok (itemDocument [n]) :=
  bind_eq_ok h.returns

theorem isReadBlock (h : StandsAlone n) : Block.IsReadBlock n := by
  obtain ⟨text, -, hread⟩ := h.exists_text
  obtain ⟨-, m, item, -, hitem⟩ := exists_of_fromMarkdown hread
  exact isReadBlock_of_mem_nodesIn (hitem ▸ List.mem_cons_self)

theorem isWrittenAt (h : StandsAlone n) : Writer.IsWrittenAt {} 2 (merged n) (textInItem n) := by
  obtain ⟨text, hwrite, -⟩ := h.exists_text
  have hinline := h.isReadBlock.isInline_eq
  rw [toMarkdown_eq comesTo_default] at hwrite
  obtain ⟨s, hs⟩ : ∃ s, Writer.IsWrittenAt {} 2 (merged n) s := by
    cases hdocument : write {} (itemDocument [n]) with
    | error f =>
      rw [hdocument] at hwrite
      cases hwrite
    | ok written =>
      obtain ⟨l, hnode, -⟩ := write_eq_ok hdocument
      rw [merged_itemDocument (by simpa using hinline)] at hnode
      obtain ⟨l₁, hblocks⟩ := Writer.exists_of_node_itemDocument hnode
      have hblock : isInline (merged n) = false := (isInline_merged n).trans hinline
      rw [List.map_singleton, Writer.blocks, hblock,
        Writer.block_of_isReadBlock h.isReadBlock] at hblocks
      simp only [Bool.false_eq_true, if_false, bind_assoc] at hblocks
      obtain ⟨_, l₂, hstart, hblocks⟩ := run_bind_eq_ok hblocks
      rw [Writer.startBlock_eq] at hstart
      cases hstart
      obtain ⟨_, l₃, hrun, -⟩ := run_bind_eq_ok hblocks
      exact Writer.exists_isWrittenAt h.isReadBlock hrun
  obtain ⟨out, hrun, hout⟩ := hs.writes { indent := 2 } rfl
  have htext : textInItem n = s := by
    rw [textInItem, hrun]
    exact hout
  rwa [htext]

theorem some (h : StandsAlone n) : textInItem n ≠ [] := by
  obtain ⟨⟨c, hc, -⟩, -⟩ := h.bounded
  rintro hnil
  rw [hnil] at hc
  cases hc

/-- The text of the document is the text of the block after a marker. -/
theorem fromMarkdown_text (h : StandsAlone n) :
    fromMarkdown
      (.text (String.ofList ('-' :: ' ' :: textInItem n))) none [] = .ok (itemDocument [n]) := by
  obtain ⟨text, hwrite, hread⟩ := h.exists_text
  have hinline : ∀ m ∈ [n], isInline m = false := by simpa using h.isReadBlock.isInline_eq
  have hdocument := Writer.write_itemDocument hinline h.isWrittenAt .nil h.some
  rw [List.flatMap_nil, List.append_nil, trim_item h.bounded.2] at hdocument
  rw [toMarkdown_of_write comesTo_default hdocument] at hwrite
  cases hwrite
  exact hread

end StandsAlone

/-- A text that is a tight bullet list of one item is read as the document of that item. -/
theorem fromMarkdown_of_blocks (blocks : blocksOf s = [.list (.bullet '-') [bs]])
    (plain : Block.definitionsOf bs = []) (tight : Block.isLoose false [bs] = false)
    (nodes : Block.nodesIn [] true bs = ns) :
    fromMarkdown (.text (String.ofList s)) none [] = .ok (itemDocument ns) := by
  have hplain : Block.definitionsOf (blocksOf s) = [] := by
    rw [blocks, Block.definitionsOf, Block.definitions, Block.definitionsIn, plain]
    rfl
  rw [fromMarkdown_eq, String.toList_ofList, hplain, blocks, Block.nodesIn, Block.nodes,
    Block.nodesIn, Block.itemNodes, Block.itemNodes, nodes, Bool.false_and, tight]
  rfl

theorem textInItem_of_run
    (run : Writer.node {} (merged n) { indent := 2 } = .ok () { indent := 2, out := [s] }) :
    textInItem n = s := by
  rw [textInItem, run]
  exact List.append_nil s

/-- A block stands alone if its text after a marker is read as a tight list with the block in its
item. -/
theorem standsAlone_of_blocks
    (run : Writer.node {} (merged n) { indent := 2 } = .ok () { indent := 2, out := [s] })
    (bounded : Text.Bounded Text.isBlank s)
    (blocks : blocksOf ('-' :: ' ' :: s) = [.list (.bullet '-') [bs]])
    (plain : Block.definitionsOf bs = []) (tight : Block.isLoose false [bs] = false)
    (nodes : Block.nodesIn [] true bs = [n]) : StandsAlone n := by
  have htext := textInItem_of_run run
  have hread : Block.IsReadBlock n := isReadBlock_of_mem_nodesIn (nodes ▸ List.mem_cons_self)
  have hplain : Block.definitionsOf (blocksOf ('-' :: ' ' :: s)) = [] := by
    rw [blocks, Block.definitionsOf, Block.definitions, Block.definitionsIn, plain]
    rfl
  obtain ⟨t, hwritten⟩ := Writer.exists_isWrittenAt hread run
  obtain ⟨out, hrun, hout⟩ := hwritten.writes { indent := 2 } rfl
  rw [run] at hrun
  cases hrun
  obtain rfl : s = t := by simpa [Writer.Layout.text] using hout
  have hsome : s ≠ [] := by
    obtain ⟨-, d, hd, -⟩ := bounded
    rintro rfl
    cases hd
  have hinline : ∀ m ∈ [n], isInline m = false := by simpa using hread.isInline_eq
  have hwrite := Writer.write_itemDocument hinline hwritten .nil hsome
  rw [List.flatMap_nil, List.append_nil, trim_item bounded.2] at hwrite
  refine ⟨?_, htext ▸ bounded, htext ▸ hplain⟩
  rw [toMarkdown_of_write comesTo_default hwrite]
  exact fromMarkdown_of_blocks blocks plain tight nodes

/-- How the text of a block is read after a marker: its lines leave the block in the item. -/
structure IsReadAlone (n : Node) (c : Char) (cs : Chars) (ls : List Chars) (k : Kind)
    (g : Growth) : Prop where
  text : IsInkedText (textInItem n) c cs ls
  item : Start.find? .free true (bulletLine (c :: cs)) =
    some (.item ⟨.bullet '-', 2, some (inItem (c :: cs))⟩)
  alone : IsAlone 18 c cs (plainLines ls) k g
  kind : n.kind? = some k
  nodes : Block.nodesIn [] true (g.blocks true) = [n]

variable (ds inside) in
theorem exists_of_mem (hb : b ∈ bs) :
    ∃ final, ∀ n ∈ Block.nodes ds final b, n ∈ Block.nodesIn ds inside bs := by
  induction bs with
  | nil => cases hb
  | cons first bs ih =>
    rw [Block.nodesIn]
    obtain rfl | hb := List.mem_cons.mp hb
    · exact ⟨_, fun n hn => List.mem_append_left _ hn⟩
    · obtain ⟨final, hfinal⟩ := ih hb
      exact ⟨final, fun n hn => List.mem_append_right _ (hfinal n hn)⟩

/-- Where a list of one item is read, there is no more than that list. -/
theorem not_spread_of_nodesIn (plain : Block.definitionsOf bs = []) {data : ListData}
    (h : Block.nodesIn ds inside bs = [.branch (.list data) none [.branch .item none ns]]) :
    ¬Spread bs := by
  obtain ⟨k, -, hk⟩ := kindsOf_of_nodesIn h
  have hsolids := solids_eq_length fun d hd => definitionsOf_ne_nil hd plain
  rw [hk, List.length_singleton] at hsolids
  rintro (htwo | ⟨m, items, hlist, htwo⟩)
  · omega
  · obtain ⟨final, hmem⟩ := exists_of_mem ds inside hlist
    have hnode := hmem _ (List.mem_singleton.mpr rfl)
    rw [h, List.mem_singleton] at hnode
    obtain ⟨item, rfl, -⟩ := exists_of_itemNodes (Node.branch.inj hnode).2.2
    simp at htwo

theorem StandsAlone.exists_isReadAlone (h : StandsAlone n) :
    ∃ c cs ls k g, IsReadAlone n c cs ls k g := by
  obtain ⟨c, cs, ls, text⟩ := exists_isInkedText h.bounded
  have hblocks : blocksOf ('-' :: ' ' :: textInItem n) =
      Tip.grow 20 [] .idle (bulletLine (c :: cs) :: plainLines ls) := by
    rw [blocksOf, linesOf_item text]
    rfl
  obtain ⟨hnodes, m, item, hitem, -⟩ := exists_of_fromMarkdown h.fromMarkdown_text
  rw [String.toList_ofList] at hnodes hitem
  have plain := h.plain
  rw [plain] at hnodes
  have hspread := not_spread_of_nodesIn plain hnodes
  rw [hblocks] at hspread hnodes hitem plain
  have hsingle : ∀ l ∈ plainLines ls, '\n' ∉ l.text := by
    rintro _ hl
    obtain ⟨line, hline, rfl⟩ := List.mem_map.mp hl
    exact text.single line (List.mem_cons_of_mem _ hline)
  obtain ⟨hbegins, g, hg⟩ := exists_itemGrowth text.ink hsingle hspread hitem
  rw [grow_of_itemGrowth text.ink hbegins hg] at hnodes plain
  rw [Block.nodesIn, Block.nodes, Block.nodesIn, List.append_nil] at hnodes
  obtain ⟨_, hsame, hin⟩ :=
    exists_of_itemNodes (Node.branch.inj (List.singleton_injective hnodes)).2.2
  obtain rfl := (List.cons.inj hsame).1
  obtain ⟨k, hk, hkinds⟩ := kindsOf_of_nodesIn hin
  rw [definitionsOf_singleton, Block.definitions, Block.definitionsIn, Block.definitionsIn,
    List.append_nil] at plain
  refine ⟨c, cs, ls, k, g, text, hbegins, ⟨text.ink, ?_, hg, hkinds, plain⟩, hk, hin⟩
  obtain rfl | ⟨before, last, rfl, hink⟩ := text.last
  · exact .inl rfl
  · exact .inr ⟨plainLines before, { text := last }, by simp [plainLines], hink⟩

end Canonmark.Markdown
