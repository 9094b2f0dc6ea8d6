import Canonmark.Proofs.Markdown.SettledKinds

/-! Lists of paragraphs are read back as they were written, however their numbers gain digits. -/
namespace Canonmark.Markdown

variable {style : Style} {levels : Nat} {tight : Bool} {lines : List String}
    {its : List (List String)}

/-- The block that lines of words are read as. -/
def proseBlock (lines : List String) : Block := .paragraph (Text.unlines (lineTexts lines))

theorem standsFor_prose (prose : IsProse lines) :
    Block.StandsFor [proseBlock lines] [paragraphOf lines] := by
  refine Block.standsFor_single rfl (by simp [proseBlock, Block.kind?]) fun ds final => ?_
  rw [proseBlock, Block.nodes, tokens_lines ds prose.some prose.words, phrases_lines prose.words]
  rfl

theorem isItemLines_prose (prose : IsProse lines) (bullet : style.bullet ∈ ['-', '*', '+']) :
    IsItemLines style.bullet levels (lineTexts lines) [proseBlock lines] := by
  have hsettled : IsSettledIn style levels true (paragraphOf lines) (lineTexts lines) :=
    isSettledIn_prose prose bullet
  refine ⟨?_, hsettled.follows, hsettled.holds rfl⟩
  exact readsInto_single (reads_prose prose) (closeIn_of_framed (isFramed_prose prose))
    (endsAtBlank_paragraph levels _) rfl (by simp) (givesWay_paragraph levels _)

theorem isSettledItem_prose (prose : IsProse lines) (bullet : style.bullet ∈ ['-', '*', '+'])
    (tight : Bool) : IsSettledItem style levels tight [paragraphOf lines] (lineTexts lines) := by
  have hsettled : IsSettledIn style levels true (paragraphOf lines) (lineTexts lines) :=
    isSettledIn_prose prose bullet
  cases tight with
  | true =>
    simpa [stacked] using isSettledItem_packed (.cons hsettled .nil) (List.cons_ne_nil _ _)
      (.singleton _) List.countP_le_length
  | false =>
    simpa [stacked] using isSettledItem_loose (.cons hsettled .nil) (List.cons_ne_nil _ _)
      (.singleton _)

theorem forall₂_prose {α β : Type} {R : α → β → Prop} {f : List String → α} {g : List String → β}
    (prose : ∀ lines ∈ its, IsProse lines) (h : ∀ lines, IsProse lines → R (f lines) (g lines)) :
    List.Forall₂ R (its.map f) (its.map g) := by
  refine List.forall₂_map_left_iff.mpr
    (List.forall₂_map_right_iff.mpr (List.forall₂_same.mpr fun lines hlines => ?_))
  exact h lines (prose lines hlines)

/-- A plain list is written as a text from which it is read back. -/
theorem IsPlainList.exists_text {n : Node} (h : IsPlainList n)
    (bullet : style.bullet ∈ ['-', '*', '+']) (indexed : style.noIndex = false) :
    ∃ text, write style (documentOf [n]) = .ok text ∧
      fromMarkdown (.text text) none [] = .ok (documentOf [n]) := by
  obtain @⟨data, its, some, prose, numbers⟩ := h
  obtain ⟨tight, hdata, parted⟩ := numbers.exists_isListData
  obtain ⟨start, mark, marker, numbered⟩ := hdata.isNumbered bullet indexed
  have hitems : its.map itemOf =
      (its.map fun lines => [paragraphOf lines]).map (.branch .item none ·) := by
    rw [List.map_map]
    rfl
  have hsettled : IsSettledIn style maxDepth false (.branch (.list data) none (its.map itemOf))
      (stacked (gapOf tight) (numberedLines mark start (its.map lineTexts))) := by
    rw [hitems]
    refine isSettledIn_list
      (forall₂_prose prose fun lines hlines => isSettledItem_prose hlines bullet tight)
      (by simpa using some) (by rwa [List.length_map]) fun hloose => .inl ?_
    rw [List.length_map]
    exact parted hloose
  have hwrite :=
    write_of_written (by simpa using hsettled.apart) (.cons hsettled.hung.isWritten .nil)
      (.inr (.stacked (List.cons_ne_nil _ []) (by simpa using hsettled.framed) (by simp)))
  rw [stacked, List.flatMap_nil, List.append_nil] at hwrite
  -- the tree that is read holds no more texts than the paragraphs have lines
  have hreads : ReadsInto maxDepth
      (stacked (gapOf tight) (numberedLines mark start (its.map lineTexts))) [.list (marker start)
        (Block.itemsApart tight (its.map fun lines => [proseBlock lines]))] := by
    refine numbered.marking.readsInto (forall₂_prose prose fun lines hlines =>
      isItemLines_prose hlines bullet) (by simpa using some) ?_ tight
    rw [List.length_map]
  have hstands : Block.StandsFor
      [.list (marker start) (Block.itemsApart tight (its.map fun lines => [proseBlock lines]))]
      [.branch (.list data) none (its.map itemOf)] := by
    rw [hitems, ← numbered.read]
    refine Block.standsFor_list (marker start) (by simpa using some) ⟨fun _ item hitem =>
      ?_, fun hloose => .inl ?_⟩ (forall₂_prose prose fun lines hlines => standsFor_prose hlines)
    · obtain ⟨lines, -, rfl⟩ := List.mem_map.mp hitem
      rfl
    · rw [List.length_map]
      exact parted hloose
  exact ⟨_, hwrite, fromMarkdown_unlines hreads hsettled.framed hstands⟩

/-- A plain list is read back as it was written, with any bullet. -/
theorem fromMarkdown_toMarkdown_list {options : Option Options} {overrides : Members} {list : Node}
    (hstyle : ComesTo options overrides style) (indexed : style.noIndex = false)
    (plain : IsPlainList list) :
    (do let text ← toMarkdown (.tree (documentOf [list])) options overrides
        fromMarkdown (.text text) none []) = .ok (documentOf [list]) := by
  have bullet : style.bullet ∈ ['-', '*', '+'] := by
    obtain ⟨o, hsound, rfl⟩ := hstyle.exists_sound
    exact hsound.style_bullet
  obtain ⟨text, hwrite, hread⟩ := plain.exists_text bullet indexed
  rw [toMarkdown_of_write hstyle hwrite]
  exact hread

/-- A loose list whose second item has one digit more than the first. -/
def nineAndTen : Node :=
  .branch (.list {
    listType := "ordered", start := some "9", tight := some "false", delimiter :=
      some "paren" }) none
    ([["one", "two"], ["three"]].map itemOf)

theorem isPlainList_nineAndTen : IsPlainList nineAndTen := by
  have hfirst : IsProse ["one", "two"] :=
    ⟨by simp, List.forall_mem_cons.mpr ⟨.word (by simp) (by simp),
      by simpa using .word (by simp) (by simp)⟩⟩
  have hsecond : IsProse ["three"] := ⟨by simp, by simpa using .word (by simp) (by simp)⟩
  exact .mk (by simp) (by simp [hfirst, hsecond])
    (@Numbers.ordered 2 9 true false (by decide) fun _ => Nat.le_refl 2)

theorem fromMarkdown_toMarkdown_nineAndTen :
    ComesTo none [] {} ∧ IsPlainList nineAndTen ∧
      (do let text ← toMarkdown (.tree (documentOf [nineAndTen])) none []
          fromMarkdown (.text text) none []) = .ok (documentOf [nineAndTen]) :=
  ⟨comesTo_default, isPlainList_nineAndTen,
    fromMarkdown_toMarkdown_list comesTo_default rfl isPlainList_nineAndTen⟩

end Canonmark.Markdown
