import Canonmark.Proofs.Markdown.Endings
import Canonmark.Proofs.Markdown.FirstLine

/-! Two blocks in one item, written under each other, are read apart. -/
namespace Canonmark.Markdown

variable {n a b : Node} {c : Char} {cs s t : Chars} {l : Line} {i : ItemStart}

theorem Block.IsReadBlock.isSome (h : Block.IsReadBlock n) : n.kind?.isSome := by
  cases h with
  | leaf inline | quote children | list marker tight isItem => rfl
  | text text inline => obtain rfl | ⟨level, rfl⟩ := text <;> rfl

theorem isTransparent_merged (h : Block.IsReadBlock n) : isTransparent (merged n) = false := by
  cases h with
  | leaf inline => rfl
  | text text inline =>
    obtain rfl | ⟨level, rfl⟩ := text
    · rw [Merge.merged_branch .paragraph (by simp [Container.kind])]
      simpa [isTransparent] using fun n hn =>
        Writer.isInline_of_madeOf (Writer.isInline_pushAll inline n hn)
    · rfl
  | quote children | list marker tight isItem => rfl

/-- Blocks that have been read are written as they are. -/
theorem ofChildren_merged {ns : List Node} (h : ∀ n ∈ ns, Block.IsReadBlock n) :
    BlockUnit.ofChildren (ns.map merged) = ns.map (.single <| merged ·) := by
  have hnone : BlockUnit.ofChildrenAfter [] [] = [] := by
    rw [BlockUnit.ofChildrenAfter]
    rfl
  rw [BlockUnit.ofChildren]
  induction ns with
  | nil => exact hnone
  | cons n ns ih =>
    obtain ⟨hn, hns⟩ := List.forall_mem_cons.mp h
    have htyped : (merged n).kind?.isSome := by
      rw [kind?_merged]
      exact hn.isSome
    rw [List.map_cons, BlockUnit.ofChildrenAfter, isInline_merged, hn.isInline_eq,
      if_neg Bool.false_ne_true, ofBlock_single htyped (isTransparent_merged hn), ih hns]
    rfl

theorem ne_code_of_needsBlankLine (h : needsBlankLine {} (.single a) (.single b)) :
    a.kind? ≠ some .codeBlock := by
  intro code
  unfold needsBlankLine at h
  rw [isHtml_single, isHtml_single, isParagraphLike_single, isParagraphLike_single,
    endsItself_single, code] at h
  simp at h

theorem isPacked_two (ha : Block.IsReadBlock a) (hb : Block.IsReadBlock b) :
    Writer.isPacked ([a, b].map merged) = !needsBlankLine {} (.single (merged a))
    (.single (merged b)) := by
  have hunits : itemUnits (.branch .item none ([a, b].map merged)) =
      [.single (merged a), .single (merged b)] :=
    ofChildren_merged (by simpa using ⟨ha, hb⟩)
  rw [Writer.isPacked, isWrittenTight, List.any_cons, List.any_nil, Bool.or_false, hunits,
    anyNeedsBlankLine, anyNeedsBlankLine, Bool.or_false]
  rfl

theorem HasInk.dropBlanks (h : HasInk l.text) : HasInk (Start.dropBlanks l).text := by
  obtain ⟨d, hd, hblank⟩ := h
  refine ⟨d, ?_, hblank⟩
  have hparts := List.takeWhile_append_dropWhile (p := Text.isBlank) (l := l.text)
  have hdrop : (Start.dropBlanks l).text = l.text.dropWhile Text.isBlank :=
    (congrArg (List.drop _) hparts.symm).trans List.drop_left
  rw [hdrop]
  rw [← hparts, List.mem_append] at hd
  refine hd.resolve_left fun hd => ?_
  rw [List.mem_takeWhile_imp hd] at hblank
  cases hblank

theorem HasInk.dropIndent (h : HasInk l.text) (count : Nat) : HasInk (l.dropIndent count).text :=
  h.mono fun _ hd space => mem_dropFrom hd space _ _

theorem HasInk.ne_nil (h : HasInk s) : s ≠ [] := by
  obtain ⟨d, hd, -⟩ := h
  exact List.ne_nil_of_mem hd

theorem item?_of_find? (space : isSpace c = false) {column : Nat}
    (h : Start.find? .free true ⟨column, c :: cs⟩ = some (.item i)) :
    Start.item? ⟨column, c :: cs⟩ = some i := by
  rw [find?_eq_or (isIndented_of_head space column)] at h
  simp [Option.or_eq_some_iff, Option.bind_eq_some_iff] at h
  exact h.2.2.2.2.2

/-- An item with a bullet or the number one and ink on the line of its marker interrupts a
paragraph. -/
theorem interrupts_of_shown {sign shown : Chars} (hsign : sign ∈ [['-'], ['1', '.'], ['1', ')']])
    (ink : HasInk shown) {column : Nat} (h : Start.item? ⟨column, sign ++ ' ' :: shown⟩ = some i) :
    Start.interrupts i := by
  obtain ⟨d, ds, hd, hspace⟩ : ∃ d ds, sign = d :: ds ∧ isSpace d = false := by
    simp only [List.mem_cons, List.not_mem_nil, or_false] at hsign
    obtain rfl | rfl | rfl := hsign <;> exact ⟨_, _, rfl, rfl⟩
  have hnumber : Text.decimalValue ['1'] = 1 := rfl
  obtain ⟨m, hmarker, hone⟩ : ∃ m, Start.marker? (sign ++ ' ' :: shown) = some (m, sign.length) ∧
      ∀ width rest, rest.text ≠ [] → Start.interrupts ⟨m, width, some rest⟩ := by
    simp only [List.mem_cons, List.not_mem_nil, or_false] at hsign
    obtain rfl | rfl | rfl := hsign
    · exact ⟨_, rfl, fun width rest some => by simp [Start.interrupts, some]⟩
    all_goals exact ⟨_, rfl, fun width rest some => by simp [Start.interrupts, some, hnumber]⟩
  have hcontent : (Line.mk column (sign ++ ' ' :: shown)).atContent =
      ⟨column, sign ++ ' ' :: shown⟩ := by
    rw [hd]
    exact atContent_of_head hspace column
  have hafter : HasInk ((Line.mk column (sign ++ ' ' :: shown)).after sign.length).text := by
    rw [Line.after, List.drop_left]
    exact ink.mono fun e he _ => List.mem_cons_of_mem ' ' he
  rw [Start.item?, hcontent] at h
  obtain ⟨_, hm, h⟩ := Option.bind_eq_some_iff.mp h
  obtain rfl := Option.some.inj (hmarker.symm.trans hm)
  dsimp only at h
  rw [hafter.not_blank, if_neg Bool.false_ne_true] at h
  obtain ⟨-, h⟩ := Option.ite_none_left_eq_some.mp h
  split at h
  · rename_i hempty
    exact absurd (List.isEmpty_iff.mp hempty) (hafter.dropIndent _).dropBlanks.ne_nil
  · split at h
    · obtain rfl := Option.some.inj h
      exact hone _ _ (hafter.dropIndent 1).ne_nil
    · obtain rfl := Option.some.inj h
      exact hone _ _ (hafter.dropIndent _).dropBlanks.ne_nil

theorem firstLine_of_lines {ls : List Chars} (h : Text.lines s = t :: ls) :
    Writer.firstLine s = t := by
  obtain ⟨hnone, hs⟩ | ⟨line, rest, rfl, hline, hs⟩ := Text.lines_cases s
  · obtain rfl := (List.cons.inj (hs.symm.trans h)).1
    simpa [Writer.firstLine] using Writer.firstLine_append hnone []
  · obtain rfl := (List.cons.inj (hs.symm.trans h)).1
    rw [Writer.firstLine_append hline]
    exact List.append_nil _

/-- If a list is taken to interrupt a paragraph, ink follows its first marker on the same line. -/
def ShowsFirstItem (n : Node) : Prop :=
  ∀ data span item items, merged n = .branch (.list data) span (item :: items) →
    canInterrupt {} data (item :: items) → Writer.itemOpening item = some true ∧ '\r' ∉ textInItem n

theorem exists_of_kind_list (h : Block.IsReadBlock n) (hk : n.kind? = some .list) :
    ∃ data items,
      merged n = .branch (.list data) none items ∧ ∀ m ∈ items, m.kind? = some .item := by
  cases h with
  | leaf inline => rename_i x; cases x <;> cases hk
  | text text inline => obtain rfl | ⟨level, rfl⟩ := text <;> cases hk
  | quote children => cases hk
  | list marker tight isItem =>
    refine ⟨_, _, by rw [merged, apart_eq], fun m hm => ?_⟩
    obtain ⟨m', hm', rfl⟩ := List.mem_map.mp hm
    rw [kind?_merged]
    exact isItem m' hm'

theorem textInItem_emptyList {data : ListData} (h : merged n = .branch (.list data) none []) :
    textInItem n = [] := by
  rw [textInItem, h, Writer.node]
  obtain ⟨start, hstart⟩ | ⟨f, hstart⟩ := Writer.startNumber_cases data
  · rw [hstart, pure_bind, Writer.items]
    rfl
  · rw [hstart]
    rfl

/-- A list that shows its first item interrupts a paragraph if it is taken to. -/
theorem IsReadAlone.interrupts {ls : List Chars} {g : Growth} (h : IsReadAlone n c cs ls .list g)
    (alone : StandsAlone n) (shows : ShowsFirstItem n) (can : ∀ data span children, merged n =
      .branch (.list data) span children → canInterrupt {} data children)
    (begins : Start.find? .free true (inItem (c :: cs)) = some (.item i)) : Start.interrupts i := by
  obtain ⟨data, items, hmerged, isItem⟩ := exists_of_kind_list alone.isReadBlock h.kind
  cases items with
  | nil => exact absurd (textInItem_emptyList hmerged) alone.some
  | cons item items =>
    have hcan := can data none _ hmerged
    obtain ⟨hopening, hclean⟩ := shows data none item items hmerged hcan
    obtain ⟨out, hrun, hout⟩ := alone.isWrittenAt.writes { indent := 2 } rfl
    rw [hmerged] at hrun
    have hline := Writer.firstLine_of_visit (by simp) data none item items
      (isItem item List.mem_cons_self) hcan _ _ hrun
    have happended : Writer.appended { indent := 2 } { indent := 2, out } = textInItem n := by
      rw [Writer.appended, List.length_nil, Nat.sub_zero, List.take_length]
      exact hout
    obtain ⟨shown, hshown, hink⟩ := hline.2.mpr hopening
    have hlines := h.text.lines
    rw [normalizeEnds_eq hclean] at hlines
    rw [happended, firstLine_of_lines hlines] at hshown
    have hsign : Writer.interruptingSign {} data ∈ [['-'], ['1', '.'], ['1', ')']] := by
      unfold Writer.interruptingSign
      split
      · split <;> simp
      · simp
    have hitem := item?_of_find? h.alone.space begins
    rw [hshown] at hitem
    exact interrupts_of_shown hsign hink hitem

variable {cA cB : Char} {csA csB : Chars} {la lb : List Chars} {kA kB : Kind} {gA gB : Growth}

theorem exists_of_kind_thematicBreak (h : Block.IsReadBlock n)
    (hk : n.kind? = some .thematicBreak) : n = .leaf .thematicBreak none := by
  cases h with
  | leaf inline => rename_i x; cases x <;> first | rfl | cases hk
  | text text inline => obtain rfl | ⟨level, rfl⟩ := text <;> cases hk
  | quote children | list marker tight isItem => cases hk

theorem IsReadAlone.underline?_thematicBreak {ls : List Chars} {g : Growth}
    (h : IsReadAlone n c cs ls .thematicBreak g) (alone : StandsAlone n) :
    Start.underline? (inItem (c :: cs)) = none := by
  obtain rfl := exists_of_kind_thematicBreak alone.isReadBlock h.kind
  have htext : textInItem (.leaf .thematicBreak none) = ['*', '*', '*'] := textInItem_leaf rfl
  have hlines := h.text.lines
  rw [htext] at hlines
  have hline : ['*', '*', '*'] = c :: cs := (List.cons.inj hlines).1
  rw [← hline]
  rfl

/-- What a block begins that is no paragraph or HTML, it begins where another block is open. -/
theorem IsReadAlone.exists_breaks {ls : List Chars}
    {g : Growth} {k : Kind} (h : IsReadAlone n c cs ls k g)
    (alone : StandsAlone n) (other : k ≠ .paragraph ∧ k ≠ .htmlBlock) :
    ∃ st, Start.find? .free true (inItem (c :: cs)) = some st ∧ st.kind = k ∧ st.Breaks .lazy := by
  obtain ⟨st, hfind, hkind⟩ : ∃ st, Start.find? .free true (inItem (c :: cs)) = some st ∧
      st.kind = k := by
    by_cases heading : k = .heading
    · subst heading
      obtain ⟨level, text, hfind⟩ := h.find?_heading alone
      exact ⟨_, hfind, rfl⟩
    · exact h.exists_start ⟨other.1, heading⟩
  refine ⟨st, hfind, hkind, ?_⟩
  cases st with
  | html kind => exact absurd hkind.symm other.2
  | indentedCode => exact absurd hfind (not_indentedCode h.alone.space 2)
  | item i => exact nofun
  | quote _ | heading _ _ | fence _ | thematicBreak => trivial

/-- What a block begins that is no paragraph or HTML, it begins under a paragraph, and makes no
heading of it, if a list is not taken wrongly to interrupt it. -/
theorem IsReadAlone.breaks_paragraph {ls : List Chars} {g : Growth} {k : Kind}
    {st : Start} (h : IsReadAlone n c cs ls k g) (alone : StandsAlone n)
    (begins : Start.find? .free true (inItem (c :: cs)) = some st) (kind : st.kind = k)
    (breaks : st.Breaks .lazy) (shows : ShowsFirstItem n) (can : ∀ data span children, merged n =
      .branch (.list data) span children → canInterrupt {} data children) :
    st.Breaks .paragraph ∧ Start.underline? (inItem (c :: cs)) = none := by
  have hbreaks : st.Breaks .paragraph := by
    cases st with
    | html kind | indentedCode => exact breaks.elim
    | item i =>
      subst kind
      exact fun _ => h.interrupts alone shows can begins
    | quote _ | heading _ _ | fence _ | thematicBreak => trivial
  refine ⟨hbreaks, ?_⟩
  by_cases hthematic : st = .thematicBreak
  · subst hthematic
    subst kind
    exact h.underline?_thematicBreak alone
  · exact underline?_of_find? (find?_of_free begins hbreaks) hthematic

/-- The lines of two blocks are read apart. -/
theorem exists_meeting (ha : StandsAlone a) (hb : StandsAlone b)
    (hA : IsReadAlone a cA csA la kA gA) (hB : IsReadAlone b cB csB lb kB gB)
    (ended : ∀ text tag, a = .leaf (.htmlBlock text tag) none → isEndedHtml text.toList)
    (shows : kA = .paragraph → ShowsFirstItem b) (quotes : ¬(kA = .blockQuote ∧ kB = .blockQuote))
    (lists : ¬(kA = .list ∧ kB = .list)) :
    ∃ before, kindsOf before = [kA] ∧
      (inItem (cA :: csA)).itemGrowth? 19 [] (plainLines la ++
        ((if Writer.isPacked ([a, b].map merged) then [] else [{ text := [] }]) ++
          indentedLine (cB :: csB) :: plainLines lb)) = some (gB.after before) := by
  have hkinds : (merged a).kind? = some kA ∧ (merged b).kind? = some kB := by
    rw [kind?_merged, kind?_merged]
    exact ⟨hA.kind, hB.kind⟩
  rw [isPacked_two ha.isReadBlock hb.isReadBlock]
  cases hneeds : needsBlankLine {} (.single (merged a)) (.single (merged b)) with
  | true =>
    have hcode := ne_code_of_needsBlankLine hneeds
    rw [hkinds.1] at hcode
    exact meets_loose hA.alone hB.alone (hA.endsAtBlankLine (by simpa using hcode) ended) lists
  | false =>
    by_cases ends : kA = .heading ∨ kA = .thematicBreak ∨ kA = .codeBlock
    · obtain ⟨hahead, hidle⟩ := hA.ahead ha ends
      exact meets_after hA.alone hB.alone hahead hidle
    have hneed := needNoBlankLine hneeds (by simpa [hkinds.1] using ends)
    obtain ⟨html, text, interrupts⟩ := hneed
    rw [hkinds.1] at html interrupts
    rw [hkinds.2] at text
    obtain ⟨st, hfind, hkind, hbreaks⟩ := hB.exists_breaks hb (by simpa using text)
    refine meets_tight hA.alone hB.alone hfind hbreaks ?_ quotes lists (by simpa using html) ?_
    · rintro (rfl | heading)
      · exact hB.breaks_paragraph hb hfind hkind hbreaks (shows rfl) (interrupts rfl)
      · exact absurd (.inl heading) ends
    · exact fun f lines htip =>
        ends (.inr (.inr (hA.alone.kind_of_tip htip List.mem_cons_self rfl)))

open Writer (separator isPacked)

/-- The text of the document of two blocks: their texts after a marker, with a blank line between
them or not. -/
theorem write_itemDocument_two (ha : StandsAlone a) (hb : StandsAlone b) :
    write {} (itemDocument [a, b]) = .ok (String.ofList ('-' :: ' ' :: textInItem a ++
      separator (isPacked ([a, b].map merged)) 2 ++ textInItem b)) := by
  have hblocks : ∀ m ∈ [a, b], isInline m = false := by
    simpa using ⟨ha.isReadBlock.isInline_eq, hb.isReadBlock.isInline_eq⟩
  have hwrite :=
    Writer.write_itemDocument hblocks ha.isWrittenAt (.cons hb.isWrittenAt .nil) ha.some
  obtain ⟨-, d, hd, hink⟩ := hb.bounded
  have hlast : ∃ d ∈ (textInItem a ++ [textInItem b].flatMap
      (separator (isPacked ([a, b].map merged)) 2 ++ ·)).getLast?, Text.isBlank d = false := by
    refine ⟨d, ?_, hink⟩
    rw [List.flatMap_singleton, ← List.append_assoc, List.getLast?_append_of_ne_nil _ hb.some]
    exact hd
  rw [hwrite, trim_item hlast, List.flatMap_singleton, ← List.append_assoc]
  rfl

/-- A text that is a bullet list of one item is read as a document of it, with a node for each block
of the item. -/
theorem fromMarkdown_of_item {text : String} {bs : List Block}
    (h : blocksOf text.toList = [.list (.bullet '-') [bs]]) :
    ∃ tight ns, fromMarkdown (.text text) none [] =
      .ok (documentOf [.branch (.list (listDataOf none tight)) none [.branch .item none ns]]) ∧
        ns.map Node.kind? = (kindsOf bs).map some := by
  have hread := fromMarkdown_eq text
  have hnumbering : Reader.numbering? (.bullet '-') = none := rfl
  rw [h, Block.nodesIn, Block.nodes, Block.nodesIn, List.append_nil, Block.itemNodes,
    Block.itemNodes, hnumbering] at hread
  exact ⟨_, _, hread, Block.kinds_nodesIn _ true bs⟩

/-- Two blocks that stand alone, but for two quotes and two lists, are read apart in one item, each
as a block of its class, if HTML before another block is ended and a list after a paragraph shows
its first item. -/
theorem fromMarkdown_toMarkdown_neighbours (ha : StandsAlone a) (hb : StandsAlone b)
    (quotes : ¬(a.kind? = some .blockQuote ∧ b.kind? = some .blockQuote))
    (lists : ¬(a.kind? = some .list ∧ b.kind? = some .list))
    (ended : ∀ text tag, a = .leaf (.htmlBlock text tag) none → isEndedHtml text.toList)
    (shows : a.kind? = some .paragraph → ShowsFirstItem b) :
    ∃ tight ns,
      (do let text ← toMarkdown (.tree (itemDocument [a, b])) none []
          fromMarkdown (.text text) none []) =
        .ok (documentOf [.branch (.list (listDataOf none tight)) none [.branch .item none ns]]) ∧
      ns.map Node.kind? = [a.kind?, b.kind?] := by
  obtain ⟨cA, csA, la, kA, gA, hA⟩ := ha.exists_isReadAlone
  obtain ⟨cB, csB, lb, kB, gB, hB⟩ := hb.exists_isReadAlone
  rw [hA.kind, hB.kind] at quotes lists
  rw [hA.kind] at shows
  obtain ⟨before, hbefore, hgrowth⟩ := exists_meeting ha hb hA hB ended
    (fun hk => shows (congrArg some hk)) (by simpa using quotes) (by simpa using lists)
  have hwrite := toMarkdown_of_write comesTo_default (write_itemDocument_two ha hb)
  have hblocks : blocksOf (String.ofList ('-' :: ' ' :: textInItem a ++
        separator (isPacked ([a, b].map merged)) 2 ++ textInItem b)).toList =
      [.list (.bullet '-') [(gB.after before).blocks true]] := by
    rw [String.toList_ofList, blocksOf, linesOf_items hA.text hB.text]
    exact grow_of_itemGrowth hA.alone.ink hA.item hgrowth
  obtain ⟨tight, ns, hread, hkinds⟩ := fromMarkdown_of_item hblocks
  refine ⟨tight, ns, ?_, ?_⟩
  · rw [hwrite, ← hread]
    rfl
  rw [hkinds, Growth.blocks, Growth.after, List.append_assoc, kindsOf_append, hbefore,
    ← Growth.blocks, hB.alone.kinds, hA.kind, hB.kind]
  rfl

/-- A paragraph of one text. -/
def textBlock (text : String) : Node := .branch .paragraph none [.leaf (.text text) none]

theorem standsAlone_textBlock :
    textInItem (textBlock "a") = ['a'] ∧ StandsAlone (textBlock "a") := by
  have hrun : Writer.node {} (merged (textBlock "a")) { indent := 2 } =
      .ok () { indent := 2, out := [['a']] } := by
    have hmerged : merged (textBlock "a") = textBlock "a" := rfl
    rw [hmerged, textBlock]
    simp only [Writer.node, Writer.inlines, Writer.each]
    rfl
  exact ⟨textInItem_of_run hrun,
    standsAlone_of_blocks hrun ⟨⟨'a', rfl, rfl⟩, 'a', rfl, rfl⟩ rfl rfl rfl rfl⟩

/-- A tight list of one item with a text. -/
def listBlock (text : String) : Node :=
  .branch (.list (listDataOf none true)) none [.branch .item none [textBlock text]]

theorem standsAlone_listBlock :
    textInItem (listBlock "b") = ['-', ' ', 'b'] ∧ StandsAlone (listBlock "b") := by
  have hrun : Writer.node {} (merged (listBlock "b")) { indent := 2 } =
      .ok () { indent := 2, out := [['-', ' ', 'b']] } := by
    have hmerged : merged (listBlock "b") = listBlock "b" := rfl
    rw [hmerged, listBlock, textBlock]
    simp only [Writer.node, Writer.items, Writer.blocks, Writer.block, isInline, isTransparent,
      List.any_cons, List.any_nil, Bool.not_true, Bool.or_false, Bool.false_eq_true, if_false,
      Writer.inlines, Writer.each]
    rfl
  exact ⟨textInItem_of_run hrun,
    standsAlone_of_blocks hrun ⟨⟨'-', rfl, rfl⟩, 'b', rfl, rfl⟩ rfl rfl rfl rfl⟩

theorem showsFirstItem_listBlock : ShowsFirstItem (listBlock "b") := by
  intro data span item items hmerged _
  have hsame : merged (listBlock "b") = listBlock "b" := rfl
  rw [hsame, listBlock] at hmerged
  cases hmerged
  refine ⟨rfl, ?_⟩
  rw [standsAlone_listBlock.1]
  simp

theorem fromMarkdown_toMarkdown_textBeforeList :
    StandsAlone (textBlock "a") ∧ StandsAlone (listBlock "b") ∧ ShowsFirstItem (listBlock "b") ∧
      ∃ tight ns,
      (do let text ← toMarkdown (.tree (itemDocument [textBlock "a", listBlock "b"])) none []
          fromMarkdown (.text text) none []) =
        .ok (documentOf [.branch (.list (listDataOf none tight)) none [.branch .item none ns]]) ∧
      ns.map Node.kind? = [some .paragraph, some .list] :=
  ⟨standsAlone_textBlock.2, standsAlone_listBlock.2, showsFirstItem_listBlock,
    fromMarkdown_toMarkdown_neighbours standsAlone_textBlock.2 standsAlone_listBlock.2 (by decide)
      (by decide) nofun fun _ => showsFirstItem_listBlock⟩

/-- A block quote of one text. -/
def quoteBlock (text : String) : Node := .branch .blockQuote none [textBlock text]

theorem standsAlone_quoteBlock :
    textInItem (quoteBlock "q") = ['>', ' ', 'q'] ∧ StandsAlone (quoteBlock "q") := by
  have hrun : Writer.node {} (merged (quoteBlock "q")) { indent := 2 } =
      .ok () { indent := 2, out := [['>', ' ', 'q']] } := by
    have hmerged : merged (quoteBlock "q") = quoteBlock "q" := rfl
    rw [hmerged, quoteBlock, textBlock]
    simp only [Writer.node, Writer.blocks, Writer.block, isInline, isTransparent,
      List.any_cons, List.any_nil, Bool.not_true, Bool.or_false, Bool.false_eq_true, if_false,
      Writer.inlines, Writer.each]
    rfl
  exact ⟨textInItem_of_run hrun,
    standsAlone_of_blocks hrun ⟨⟨'>', rfl, rfl⟩, 'q', rfl, rfl⟩ rfl rfl rfl rfl⟩

/-- HTML of a comment that does not end. -/
def openComment : Node := .leaf (.htmlBlock "<!-- x\n" none) none

theorem standsAlone_openComment : textInItem openComment = "<!-- x".toList ∧
    StandsAlone openComment := by
  have hrun : Writer.node {} (merged openComment) { indent := 2 } =
      .ok () { indent := 2, out := ["<!-- x".toList] } := by
    rw [openComment, merged_leaf, Writer.node]
    rfl
  exact ⟨textInItem_of_run hrun,
    standsAlone_of_blocks hrun ⟨⟨'<', rfl, rfl⟩, 'x', rfl, rfl⟩ rfl rfl rfl rfl⟩

/-- Two blocks are read as the lines of their texts are. -/
theorem fromMarkdown_toMarkdown_of_lines {ns : List Node} {bs : List Block} (ha : StandsAlone a)
    (hb : StandsAlone b) (lines : '-' :: ' ' :: textInItem a ++
      separator (isPacked ([a, b].map merged)) 2 ++ textInItem b = s)
    (blocks : blocksOf s = [.list (.bullet '-') [bs]]) (plain : Block.definitionsOf bs = [])
    (tight : Block.isLoose false [bs] = false) (nodes : Block.nodesIn [] true bs = ns) :
    (do let text ← toMarkdown (.tree (itemDocument [a, b])) none []
        fromMarkdown (.text text) none []) = .ok (itemDocument ns) := by
  have hwrite := write_itemDocument_two ha hb
  rw [lines] at hwrite
  rw [toMarkdown_of_write comesTo_default hwrite]
  exact fromMarkdown_of_blocks blocks plain tight nodes

theorem isPacked_quotes : isPacked ([quoteBlock "q", quoteBlock "q"].map merged) = true := by
  have hread := standsAlone_quoteBlock.2.isReadBlock
  have hmerged : merged (quoteBlock "q") = quoteBlock "q" := rfl
  have hneeds : needsBlankLine {} (.single (quoteBlock "q")) (.single (quoteBlock "q")) =
      false := by
    unfold needsBlankLine
    rw [isHtml_single, isParagraphLike_single, endsItself_single]
    rfl
  rw [isPacked_two hread hread, hmerged, hneeds, Bool.not_false]

theorem isPacked_openComment : isPacked ([openComment, textBlock "a"].map merged) = false := by
  have hneeds : needsBlankLine {} (.single (merged openComment))
      (.single (merged (textBlock "a"))) = true := by
    unfold needsBlankLine
    rw [isHtml_single, kind?_merged]
    rfl
  rw [isPacked_two standsAlone_openComment.2.isReadBlock standsAlone_textBlock.2.isReadBlock,
    hneeds, Bool.not_true]

/-- Two quotes are read as one, and a comment that does not end holds the paragraph after it. -/
theorem fromMarkdown_toMarkdown_joined :
    (StandsAlone (quoteBlock "q") ∧
      (do let text ← toMarkdown (.tree (itemDocument [quoteBlock "q", quoteBlock "q"])) none []
          fromMarkdown (.text text) none []) =
        .ok (itemDocument [.branch .blockQuote none [.branch .paragraph none
          [.leaf (.text "q") none, .leaf .softbreak none, .leaf (.text "q") none]]])) ∧
    StandsAlone openComment ∧ StandsAlone (textBlock "a") ∧
      (do let text ← toMarkdown (.tree (itemDocument [openComment, textBlock "a"])) none []
          fromMarkdown (.text text) none []) =
        .ok (itemDocument [.leaf (.htmlBlock "<!-- x\n\na\n" none) none]) := by
  obtain ⟨hquoteText, hquote⟩ := standsAlone_quoteBlock
  obtain ⟨hcommentText, hcomment⟩ := standsAlone_openComment
  obtain ⟨htextText, htext⟩ := standsAlone_textBlock
  refine ⟨⟨hquote, ?_⟩, hcomment, htext, ?_⟩
  · have hblocks : blocksOf "- > q\n  > q".toList =
        [.list (.bullet '-') [[.quote [.paragraph ['q', '\n', 'q']]]]] :=
      rfl
    refine fromMarkdown_toMarkdown_of_lines hquote hquote ?_ hblocks rfl rfl rfl
    rw [hquoteText, isPacked_quotes]
    rfl
  · have hblocks : blocksOf "- <!-- x\n\n  a".toList =
        [.list (.bullet '-') [[.html "<!-- x\n\na\n".toList]]] :=
      rfl
    refine fromMarkdown_toMarkdown_of_lines hcomment htext ?_ hblocks rfl rfl rfl
    rw [hcommentText, htextText, isPacked_openComment]
    rfl

end Canonmark.Markdown
