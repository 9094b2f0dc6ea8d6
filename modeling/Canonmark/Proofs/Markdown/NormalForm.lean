import Canonmark.Proofs.Markdown.ListRoundTrip

/-! Markdown is normal after it has been written once. -/
namespace Canonmark.Markdown

variable {blocks : List Node} {tree : Node} {style : Style}

/-- A document is written as what its content is merged to. -/
theorem write_eq_of_merged (h : merged tree = documentOf blocks)
    (apart : ∀ n ∈ blocks, StaysApart n) : write style tree = write style (documentOf blocks) := by
  have hsame : merged tree = merged (documentOf blocks) := by rw [h, merged_documentOf apart]
  obtain ⟨span, children, rfl⟩ : ∃ span children, tree =
      .branch (.document defaultNamespace) span children := by
    unfold merged at h
    split at h
    · cases h
    · cases h
      exact ⟨_, _, rfl⟩
    · rename_i hbranch
      exact absurd h (hbranch _ _ _)
  rw [documentOf, write, write, Writer.document, Writer.document, hsame]
  rfl

/-- The blocks of an item: in a tight list none needs a blank line before it and no more than one is
a paragraph, and in a loose one no two lists meet. -/
inductive IsHeld : (tight : Bool) → List Node → Prop
  | packed {ns : List Node} (nonempty : ns ≠ []) (chain : ns.IsChain (Packs {}))
      (one : (ns.countP fun n => n.kind? == some .paragraph) ≤ 1) : IsHeld true ns
  | apart {ns : List Node} (nonempty : ns ≠ []) (chain : ns.IsChain NotBothLists) : IsHeld false ns

/-- A block that is read back as it was written, but for texts side by side, in which quotes and
lists are nested so deep. In an item, no line of code is white space only. Left out are HTML, in
blocks and in lines, whose text is written as it is and read as whatever it spells, and items
without content, which are read as items only where no paragraph is open. -/
inductive IsSettledBlock : (inItem : Bool) → (depth : Nat) → Node → Prop
  | prose {inItem : Bool} {depth : Nat} {lines : List String} (prose : IsProse lines) :
      IsSettledBlock inItem depth (paragraphOf lines)
  | text {inItem : Bool} {depth : Nat} {text : String} (line : IsTextLine text.toList)
      (unfenced : ¬ ['~', '~', '~'] <+: text.toList)
      (keeps : HasWordUnderscore text.toList → KeepsReferences text.toList) :
      IsSettledBlock inItem depth (textParagraph [text])
  | codeSpan {inItem : Bool} {depth : Nat} {text : String} (some : text ≠ "")
      (blanks : ∀ c ∈ text.toList, Text.isBlank c → c = ' ') :
      IsSettledBlock inItem depth (codeParagraph text)
  | reference {inItem : Bool} {depth : Nat} (r : Reference) {dest title label : String}
      (destination : IsDestination dest.toList)
      (blanks : ∀ c ∈ title.toList, Text.isBlank c → c = ' ')
      (keeps : KeepsAllReferences title.toList) (words : IsWords label.toList) :
      IsSettledBlock inItem depth (referenceParagraph r dest title label)
  | paragraph {inItem : Bool} {depth : Nat} {ns : List Node} (content : IsSettledContent ns)
      (ends : ∃ c ∈ (contentText ns).getLast?, Text.isBlank c = false)
      (led : ∀ l ∈ Text.lines (contentText ns), IsLed l)
      (undefined : (contentText ns).head? ≠ some '[') :
      IsSettledBlock inItem depth (.branch .paragraph none ns)
  | heading {inItem : Bool} {depth : Nat} (level : Level) {text : String}
      (line : IsTextLine text.toList)
      (keeps : HasWordUnderscore text.toList → KeepsReferences text.toList) :
      IsSettledBlock inItem depth (textHeading level [text])
  | emptyHeading {inItem : Bool} {depth : Nat} (level : Level) :
      IsSettledBlock inItem depth (textHeading level [""])
  | headingContent {inItem : Bool} {depth : Nat} (level : Level) {ns : List Node}
      (content : IsSettledContent ns) (single : '\n' ∉ contentText ns)
      (bounded : Text.Bounded Text.isBlank (contentText ns))
      (unclosed : (contentText ns).getLast? ≠ some '#') :
      IsSettledBlock inItem depth (.branch (.heading level) none ns)
  | thematicBreak {inItem : Bool} {depth : Nat} :
      IsSettledBlock inItem depth (.leaf .thematicBreak none)
  | code {inItem : Bool} {depth k : Nat} {text : String} {info : Option String}
      (code : IsCodeText text info) (fence : NeedsFence {} text k)
      (solid : inItem → ∀ l ∈ Writer.codeLines text.toList, HoldsIndent l) :
      IsSettledBlock inItem depth (.leaf (.codeBlock text info none) none)
  | quote {inItem : Bool} {depth : Nat} {ns : List Node} (nonempty : ns ≠ [])
      (below : ∀ n ∈ ns, IsSettledBlock false depth n) (chain : ns.IsChain NotBothLists) :
      IsSettledBlock inItem (depth + 1) (.branch .blockQuote none ns)
  | list {inItem tight : Bool} {depth : Nat} {data : ListData} {nss : List (List Node)}
      (nonempty : nss ≠ []) (listed : IsListData nss.length tight data)
      (below : ∀ ns ∈ nss, ∀ n ∈ ns, IsSettledBlock true depth n)
      (held : ∀ ns ∈ nss, IsHeld tight ns)
      (parted : tight = false → 2 ≤ nss.length ∨ ∃ ns ∈ nss, IsSpacious ns) :
      IsSettledBlock inItem (depth + 1) (.branch (.list data) none (nss.map (.branch .item none ·)))

/-- The content of documents that are read back as they were written, but for texts side by side. -/
structure IsSettled (blocks : List Node) : Prop where
  settled : ∀ n ∈ blocks, IsSettledBlock false maxDepth n
  chain : blocks.IsChain NotBothLists

theorem NeedsFence.three_le {t : String} {k : Nat} (fence : NeedsFence {} t k) : 3 ≤ k := by
  obtain rfl := Option.some.inj fence.fits
  exact Nat.le_max_left ..

theorem IsHeld.exists_isSettledItem {tight : Bool} {depth : Nat} {ns : List Node}
    (held : IsHeld tight ns) (below : ∀ n ∈ ns, ∃ ls, IsSettledIn {} depth true n ls) :
    ∃ ls, IsSettledItem {} depth tight ns ls := by
  obtain ⟨lss, hsettled⟩ := exists_forall₂ below
  cases held with
  | packed nonempty chain one => exact ⟨_, isSettledItem_packed hsettled nonempty chain one⟩
  | apart nonempty chain => exact ⟨_, isSettledItem_loose hsettled nonempty chain⟩

/-- Every settled block is written with lines from which the like of it is read. -/
theorem IsSettledBlock.exists_lines {inItem : Bool} {depth : Nat} {n : Node}
    (h : IsSettledBlock inItem depth n) : ∃ ls, IsSettledIn {} depth inItem n ls := by
  have bullet : ({} : Style).bullet ∈ ['-', '*', '+'] := List.mem_cons_self
  induction h with
  | prose prose => exact ⟨_, isSettledIn_prose prose bullet⟩
  | text line unfenced keeps => exact ⟨_, isSettledIn_text rfl bullet line unfenced keeps⟩
  | codeSpan some blanks => exact ⟨_, isSettledIn_codeSpan bullet some blanks⟩
  | reference r destination blanks keeps words =>
    exact ⟨_, isSettledIn_reference bullet r destination blanks keeps words⟩
  | paragraph content ends led undefined =>
    exact ⟨_, isSettledIn_content rfl bullet content ends led undefined⟩
  | heading level line keeps => exact ⟨_, isSettledIn_heading rfl bullet level line keeps⟩
  | emptyHeading level => exact ⟨_, isSettledIn_emptyHeading rfl bullet level⟩
  | headingContent level content single bounded unclosed =>
    exact ⟨_, isSettledIn_headingContent rfl bullet level content single bounded unclosed⟩
  | thematicBreak => exact ⟨_, isSettledIn_thematicBreak (by decide)⟩
  | code code fence solid => exact ⟨_, isSettledIn_code bullet code fence fence.three_le solid⟩
  | quote nonempty _ chain ih =>
    obtain ⟨lss, hsettled⟩ := exists_forall₂ ih
    exact ⟨_, isSettledIn_quote bullet hsettled nonempty chain⟩
  | @list _ tight depth _ nss nonempty listed _ held parted ih =>
    obtain ⟨start, mark, marker, numbered⟩ := @IsListData.isNumbered {} _ _ _ listed bullet rfl
    have hitems : ∀ ns ∈ nss, ∃ ls, IsSettledItem {} depth tight ns ls :=
      fun ns hns => (held ns hns).exists_isSettledItem (ih ns hns)
    obtain ⟨lss, hsettled⟩ := exists_forall₂ hitems
    exact ⟨_, isSettledIn_list hsettled nonempty numbered parted⟩

theorem IsSettled.exists_lines (h : IsSettled blocks) :
    ∃ lss, List.Forall₂ (IsSettledIn {} maxDepth false) blocks lss :=
  exists_forall₂ fun n hn => (h.settled n hn).exists_lines

theorem IsSettled.staysApart (h : IsSettled blocks) : ∀ n ∈ blocks, StaysApart n := by
  obtain ⟨lss, hsettled⟩ := h.exists_lines
  exact staysApart_of_settled hsettled

/-- What is written for a settled document is written again as it is. -/
theorem normalizeMarkdown_normalizeMarkdown {markdown : String}
    (hread : fromMarkdown (.text markdown) none [] = .ok tree)
    (hmerged : merged tree = documentOf blocks) (settled : IsSettled blocks) :
    ∃ text, normalizeMarkdown (.text markdown) none none = .ok text ∧
      normalizeMarkdown (.text text) none none = .ok text := by
  obtain ⟨lss, hsettled⟩ := settled.exists_lines
  obtain ⟨text, again, hwrite, hback, hagain⟩ := exists_text_of_settled hsettled settled.chain
  have hnormal : ∀ {source : String} {n : Node}, fromMarkdown (.text source) none [] = .ok n →
      merged n = documentOf blocks → normalizeMarkdown (.text source) none none = .ok text := by
    intro source n hn hsame
    rw [← write_eq_of_merged hsame settled.staysApart] at hwrite
    rw [normalizeMarkdown, hn]
    exact toMarkdown_of_write comesTo_default hwrite
  exact ⟨text, hnormal hread hmerged, hnormal hback hagain⟩

theorem normalizeMarkdown_quotedBreak :
    fromMarkdown (.text "> ___") none [] =
        .ok (documentOf [.branch .blockQuote none [.leaf .thematicBreak none]]) ∧
      merged (documentOf [.branch .blockQuote none [.leaf .thematicBreak none]]) =
        documentOf [.branch .blockQuote none [.leaf .thematicBreak none]] ∧
      IsSettled [.branch .blockQuote none [.leaf .thematicBreak none]] ∧
      ∃ text, normalizeMarkdown (.text "> ___") none none = .ok text ∧
        normalizeMarkdown (.text text) none none = .ok text := by
  have hquote :
      IsSettledBlock false maxDepth (.branch .blockQuote none [.leaf .thematicBreak none]) :=
    .quote (by simp) (by simpa using .thematicBreak) (.singleton _)
  have settled : IsSettled [.branch .blockQuote none [.leaf .thematicBreak none]] :=
    ⟨by simpa using hquote, .singleton _⟩
  have hmerged := merged_documentOf settled.staysApart
  exact ⟨rfl, hmerged, settled, normalizeMarkdown_normalizeMarkdown rfl hmerged settled⟩

/-- An escaped fence is written without its backslash, and is a fence from then on. -/
theorem normalizeMarkdown_of_escapedTildes :
    normalizeMarkdown (.text "\\~~~") none none = .ok "~~~" ∧
      normalizeMarkdown (.text "~~~") none none = .ok "\x60\x60\x60\n\x60\x60\x60" := by
  have line : IsTextLine "~~~".toList := ⟨by simp [Text.isBlank], ⟨'~', rfl, rfl⟩, '~', rfl, rfl⟩
  have htildes : fromMarkdown (.text "\\~~~") none [] =
      .ok (documentOf [textParagraph ["~", "~~"]]) :=
    rfl
  have hfence : fromMarkdown (.text "~~~") none [] =
      .ok (documentOf [.leaf (.codeBlock "" none none) none]) := rfl
  constructor
  · have hmerged : merged (documentOf [textParagraph ["~", "~~"]]) =
        documentOf [textParagraph ["~~~"]] :=
      rfl
    have hwrite : write {} (documentOf [textParagraph ["~", "~~"]]) = .ok "~~~" := by
      rw [write_eq_of_merged hmerged (by simpa using staysApart_textParagraph "~~~"),
        write_text rfl line]
      rfl
    rw [normalizeMarkdown, htildes]
    exact toMarkdown_of_write comesTo_default hwrite
  · have plain : IsPlain maxDepth (.leaf (.codeBlock "" none none) none) :=
      .code ⟨.inl rfl, by simp⟩
    have hwritten : Writer.IsWritten {} (.leaf (.codeBlock "" none none) none)
        (Writer.fence 3 :: Writer.codeLines [] ++ [Writer.fence 3]) :=
      Writer.isWritten_code (t := "") (k := 3) ⟨.inl rfl, by simp⟩ rfl (by decide)
    have hframed :
        IsFramed (stacked [[]] [Writer.fence 3 :: Writer.codeLines [] ++ [Writer.fence 3]]) :=
      isFramed_code (s := []) ⟨.inl rfl, by simp⟩ (Nat.le_refl 3)
    have hwrite : write {} (documentOf [.leaf (.codeBlock "" none none) none]) =
        .ok "\x60\x60\x60\n\x60\x60\x60" :=
      write_of_written (by simpa using plain.staysApart) (.cons hwritten .nil) (.inr hframed)
    rw [normalizeMarkdown, hfence]
    exact toMarkdown_of_write comesTo_default hwrite

end Canonmark.Markdown
