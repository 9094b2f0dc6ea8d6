import Canonmark.Proofs.Markdown.Plain
import Canonmark.Proofs.Markdown.Stack
import Canonmark.Proofs.Markdown.Visits
import Canonmark.Proofs.Pairs

/-! What is written for plain blocks, to the last character. -/
namespace Canonmark.Markdown.Writer

/-- Work that writes the given text, and leaves all else as it is. -/
def Writes (work : Writing Unit) (text : Chars) (l : Layout) : Prop :=
  ∃ out, work l = .ok () { l with out } ∧ out.reverse.flatten = Layout.text l ++ text

variable {work next : Writing Unit} {text others : Chars} {l : Layout} {style : Style}
    {ns : List Node}

theorem writes_emit (chunk : Chars) (l : Layout) : Writes (emit chunk) chunk l :=
  ⟨chunk :: l.out, rfl, by simp [Layout.text]⟩

theorem writes_pure (l : Layout) : Writes (pure ()) [] l := ⟨l.out, rfl, (List.append_nil _).symm⟩

theorem Writes.bind (h : Writes work text l) (hnext : ∀ out, Writes next others { l with out }) :
    Writes (work >>= fun _ => next) (text ++ others) l := by
  obtain ⟨out, hwork, hout⟩ := h
  obtain ⟨out', hrest, hout'⟩ := hnext out
  refine ⟨out', by rw [run_bind_of_ok hwork, hrest], ?_⟩
  rw [hout', Layout.text, hout, List.append_assoc]

/-- Work that goes on with an outcome, nothing being written for it. -/
theorem Writes.after {α : Type} {first : Writing α} {rest : α → Writing Unit} {a : α}
    (h : first l = .ok a l) (hrest : Writes (rest a) text l) : Writes (first >>= rest) text l := by
  rw [Writes, run_bind_of_ok h]
  exact hrest

/-- The text of inline content that is written to the last character. -/
theorem inlines_eq_ok (typed : ∀ n ∈ ns, n.kind?.isSome)
    (h : Writes (each style ns) text { l with out := [] }) : inlines style ns l = .ok text l := by
  have hforeign : refuseForeign ns l = .ok () l := by
    have hfind : ns.find? (fun n => n.kind?.isNone) = none := by
      simpa [List.find?_eq_none] using fun n hn => Option.isSome_iff_ne_none.mp (typed n hn)
    rw [refuseForeign, hfind]
    rfl
  obtain ⟨out, heach, hout⟩ := h
  have hbegin : beginCapture l = .ok l.out { l with out := [] } := rfl
  rw [inlines, run_bind_of_ok hforeign, run_bind_of_ok hbegin, run_bind_of_ok heach]
  have htext : Layout.text { l with out } = text := hout
  change EStateM.Result.ok (Layout.text { l with out }) _ = _
  rw [htext]

/-- The text of a single node, which is written as that text where nothing else is. -/
theorem inlines_singleton {n : Node} (typed : n.kind?.isSome)
    (h : ∀ l : Layout, l.out = [] → Writes (node style n) text l) (l : Layout) :
    inlines style [n] l = .ok text l := by
  have heach := (h { l with out := [] } rfl).bind fun out => writes_pure _
  rw [List.append_nil] at heach
  refine inlines_eq_ok (by simpa using typed) ?_
  rw [each, each]
  exact heach

variable {ls : List String}

theorem writes_text {t : String} (words : IsWords t.toList) (span : Option Span) (l : Layout) :
    Writes (node style (.leaf (.text t) span)) t.toList l := by
  rw [node, leaf, words.plainText_eq]
  exact writes_emit _ l

theorem writes_softbreak (span : Option Span) (l : Layout) :
    Writes (node style (.leaf .softbreak span)) (newline l.indent) l := by
  rw [node]
  exact writes_emit _ l

theorem writes_each_lines (prose : IsProse ls) (l : Layout) :
    Writes (each style (lineNodes ls)) (List.intercalate (newline l.indent) (lineTexts ls)) l := by
  obtain ⟨some, words⟩ := prose
  unfold lineNodes
  fun_induction lined (fun t => Node.leaf (.text t) none) (.leaf .softbreak none) ls
    generalizing l with
  | case1 => exact absurd rfl some
  | case2 t =>
    rw [each, each]
    simpa [lineTexts] using (writes_text (words t (by simp)) none l).bind fun out => writes_pure _
  | case3 t u ls ih =>
    obtain ⟨ht, hls⟩ := List.forall_mem_cons.mp words
    have hrest : ∀ out, Writes (do
        node style (.leaf .softbreak none)
        each style (lineNodes (u :: ls)))
        (newline l.indent ++ List.intercalate (newline l.indent) (lineTexts (u :: ls)))
        { l with out } :=
      fun out => (writes_softbreak none _).bind fun _ => ih _ (by simp) hls
    rw [each, each]
    exact (writes_text ht none l).bind hrest

theorem inlines_lines (prose : IsProse ls) (l : Layout) :
    inlines style (lineNodes ls) l =
      .ok (List.intercalate (newline l.indent) (lineTexts ls)) l := by
  refine inlines_eq_ok (fun n hn => ?_) (writes_each_lines prose _)
  obtain ⟨t, _, rfl⟩ | rfl := mem_lined _ _ hn <;> rfl

/-- The lines of a paragraph stand under each other. -/
theorem writes_paragraph (prose : IsProse ls) (l : Layout) :
    Writes (node style (paragraphOf ls))
      (List.intercalate (newline l.indent) (lineTexts ls)) l := by
  rw [paragraphOf, node]
  exact .after (inlines_lines prose l) (writes_emit _ l)

theorem escapeClosingHashes_eq {t : Chars} (words : IsWords t) : escapeClosingHashes t = t := by
  obtain ⟨cs, c, rfl, hc⟩ := words.last
  have hhashes : Text.takeEndWhile (· == '#') (cs ++ [c]) = [] := by
    simp [Text.takeEndWhile, ne_of_isAlphanum hc]
  rw [escapeClosingHashes, hhashes]
  rfl

theorem headingContent_eq {t : Chars} (words : IsWords t) : headingContent t = t := by
  obtain ⟨cs, c, hlast, hc⟩ := words.last
  have hend : (t.getLast? == some '\n') = false := by
    simp [hlast, ne_of_isAlphanum hc]
  rw [headingContent, hend]
  exact escapeClosingHashes_eq words

/-- A heading is written with its signs before its content. -/
theorem writes_heading {content : Chars} (level : Level)
    (hinlines : inlines style ns l = .ok text l)
    (hcontent : (if style.escape then headingContent text else text) = content)
    (some : content ≠ []) :
    Writes (node style (.branch (.heading level) none ns))
      (List.replicate level.number '#' ++ ' ' :: content) l := by
  have hsome : content.isEmpty = false := by simpa using some
  rw [node]
  refine .after hinlines ?_
  dsimp only
  rw [hcontent, hsome]
  exact writes_emit _ l

theorem inlines_words {t : String} (words : IsWords t.toList) (l : Layout) :
    inlines style [.leaf (.text t) none] l = .ok t.toList l := by
  have prose : IsProse [t] := ⟨by simp, by simpa using words⟩
  simpa [lineTexts, lineNodes, lined] using inlines_lines prose l

theorem writes_thematicBreak (l : Layout) :
    Writes (node style (.leaf .thematicBreak none)) ['*', '*', '*'] l := by
  rw [node]
  exact writes_emit _ l

/-- The lines of code. -/
def codeLines (s : Chars) : List Chars := if s.isEmpty then [] else Text.lines s.dropLast

variable {s : Chars} {k : Nat}

/-- The lines of a text that ends with its last line make up the text. -/
theorem flatMap_codeLines (ends : s = [] ∨ s.getLast? = some '\n') :
    (codeLines s).flatMap (· ++ ['\n']) = s := by
  obtain rfl | hlast := ends
  · rfl
  · obtain ⟨t, rfl⟩ := List.getLast?_eq_some_iff.mp hlast
    simp [codeLines, Text.flatMap_lines]

theorem infix_of_mem_codeLines {line : Chars} (h : line ∈ codeLines s) :
    '\n' ∉ line ∧ line <:+: s := by
  unfold codeLines at h
  split at h
  · cases h
  · obtain ⟨hline, hwithin⟩ := Text.infix_of_mem_lines h
    exact ⟨hline, hwithin.trans (List.dropLast_prefix s).isInfix⟩

theorem codeBlock_eq (ends : s = [] ∨ s.getLast? = some '\n') (mark info : Chars) :
    codeBlock mark s info = Text.unlines ((mark ++ info) :: codeLines s ++ [mark]) := by
  obtain rfl | hlast := ends
  · simp [codeBlock, codeLines]
  · obtain ⟨t, rfl⟩ := List.getLast?_eq_some_iff.mp hlast
    have hbody : codeBlock mark (t ++ ['\n']) info = Text.unlines [mark ++ info, t, mark] := by
      simp [codeBlock]
    have hlines : (mark ++ info) :: codeLines (t ++ ['\n']) ++ [mark] =
        [mark ++ info] ++ (Text.lines t ++ [mark]) := by
      simp [codeLines]
    rw [hbody, hlines, Text.unlines_append _ (by simp), Text.unlines_append _ (by simp),
      Text.flatMap_lines, Text.unlines_cons _ (by simp), Text.unlines_cons _ (by simp),
      Text.unlines_singleton]
    simp

theorem indentLines_zero (t : Chars) : indentLines 0 t = t := by
  have hline : (fun l : Chars => if l.isEmpty then [] else List.replicate 0 ' ' ++ l) = id := by
    funext l
    cases l <;> rfl
  unfold indentLines
  cases hlines : Text.lines t with
  | nil => exact absurd hlines (Text.lines_ne_nil t)
  | cons line rest =>
    dsimp only
    rw [hline, List.map_id, ← hlines, Text.unlines_lines]

/-- The length of the fence around code. -/
def fenceLength (k : Nat) (s : Chars) : Nat := max k (longestRun 0 s + 1)

theorem fenceAround_eq_ok (hfence : style.fenceMin = .whole k)
    (room : fenceLength k s ≤ maxLength) : fenceAround style s = .ok (fence (fenceLength k s)) := by
  rw [fenceAround, hfence]
  exact if_neg (Nat.not_lt.mpr room)

/-- Code is written line by line between its fences, the first of which bears the info. -/
theorem writes_codeBlock {t : String} {info : Option String}
    {mark : Chars} (ends : t.toList = [] ∨ t.toList.getLast? = some '\n')
    (hmark : fenceAround style t.toList = .ok mark) (flush : l.indent = 0) :
    Writes (node style (.leaf (.codeBlock t info none) none))
      (Text.unlines ((mark ++ (info.getD "").toList) :: codeLines t.toList ++ [mark])) l := by
  rw [node, leaf]
  refine .after (a := l) rfl ?_
  simp only [hmark, flush]
  rw [indentLines_zero, ← codeBlock_eq ends]
  exact writes_emit _ l

/-- A block that is written as the text wherever it stands at an indentation. -/
structure IsWrittenAt (style : Style) (indent : Nat) (n : Node) (s : Chars) : Prop where
  inline : isInline n = false
  block : block style n = (do startBlock; node style n)
  writes : ∀ l, l.indent = indent → Writes (node style n) s l

variable {n : Node} {s : Chars} {ss : List Chars} {indent : Nat} {lines : List Chars}
    {lss : List (List Chars)}

theorem IsWrittenAt.blocks_cons (h : IsWrittenAt style indent n s) (ns : List Node) :
    blocks style (n :: ns) = (do
      startBlock
      node style n
      blocks style ns) := by
  rw [blocks, h.inline, h.block]
  simp only [Bool.false_eq_true, if_false, bind_assoc]

theorem writes_separator (later : l.first = false) :
    Writes startBlock (separator l.tight l.indent) l := by
  refine ⟨List.replicate l.indent ' ' :: (if l.tight then ['\n'] else ['\n', '\n']) ::
    l.out, ?_, ?_⟩
  · rw [startBlock_eq, later]
    obtain ⟨out, indent, first, tight, markers⟩ := l
    cases later
    rfl
  · simp [Layout.text, separator]

theorem writes_blocks_further (h : List.Forall₂ (IsWrittenAt style l.indent) ns ss)
    (later : l.first = false) :
    Writes (blocks style ns) (ss.flatMap (separator l.tight l.indent ++ ·)) l := by
  generalize hindent : l.indent = indent at h
  induction h generalizing l with
  | nil =>
    rw [blocks]
    exact writes_pure l
  | @cons n s ns ss hn _ ih =>
    have hrest : ∀ out,
        Writes (blocks style ns) (ss.flatMap (separator l.tight indent ++ ·)) { l with out } :=
      fun out => ih (l := { l with out }) later hindent
    have hseparator := writes_separator later
    rw [hindent] at hseparator
    rw [hn.blocks_cons, List.flatMap_cons, List.append_assoc]
    exact hseparator.bind fun out => (hn.writes { l with out } hindent).bind hrest

/-- The blocks of a container stand under each other. -/
theorem blocks_of_isWrittenAt (hn : IsWrittenAt style l.indent n s)
    (h : List.Forall₂ (IsWrittenAt style l.indent) ns ss) (first : l.first) :
    ∃ out, blocks style (n :: ns) l = .ok () { l with first := false, out } ∧
      out.reverse.flatten = Layout.text l ++
      (s ++ ss.flatMap (separator l.tight l.indent ++ ·)) := by
  have hstart : startBlock l = .ok () { l with first := false } := by
    rw [startBlock_eq, first]
    rfl
  have hfurther : ∀ out, Writes (blocks style ns) (ss.flatMap (separator l.tight l.indent ++ ·))
      { l with first := false, out } := fun out => writes_blocks_further h rfl
  obtain ⟨out, hwork, hout⟩ := (hn.writes { l with first := false } rfl).bind hfurther
  exact ⟨out, by rw [hn.blocks_cons, run_bind_of_ok hstart, hwork], hout⟩

/-- A node that is a block of its own, written with the given lines where nothing is indented. -/
structure IsWritten (style : Style) (n : Node) (ls : List Chars) : Prop where
  inline : isInline n = false
  block : block style n = (do startBlock; node style n)
  some : ls ≠ []
  writes : ∀ l, l.indent = 0 → Writes (node style n) (Text.unlines ls) l

theorem IsWritten.isWrittenAt (h : IsWritten style n lines) :
    IsWrittenAt style 0 n (Text.unlines lines) :=
  ⟨h.inline, h.block, h.writes⟩

theorem some_of_written (written : List.Forall₂ (IsWritten style) ns lss) : ∀ m ∈ lss, m ≠ [] := by
  induction written with
  | nil => simp
  | cons hn _ ih => exact List.forall_mem_cons.mpr ⟨hn.some, ih⟩

/-- The blocks of a container are written under each other, an empty line between two. -/
theorem blocks_eq_ok (written : List.Forall₂ (IsWritten style) ns lss) (flush : l.indent = 0)
    (loose : l.tight = false) (first : l.first) :
    ∃ l', blocks style ns l = .ok () l' ∧
      Layout.text l' = Layout.text l ++ Text.unlines (stacked [[]] lss) := by
  cases written with
  | nil => exact ⟨l, by rw [blocks]; rfl, by simp [stacked, Text.unlines]⟩
  | @cons n ls ns lss hn hns =>
    have hothers : List.Forall₂ (IsWrittenAt style l.indent) ns (lss.map Text.unlines) := by
      rw [flush]
      exact List.forall₂_map_right_iff.mpr (hns.imp fun _ _ h => h.isWrittenAt)
    obtain ⟨out, hblocks, hout⟩ :=
      blocks_of_isWrittenAt (by rw [flush]; exact hn.isWrittenAt) hothers first
    refine ⟨_, hblocks, ?_⟩
    rw [unlines_stacked hn.some (some_of_written hns)]
    rw [flush, loose, List.flatMap_map] at hout
    exact hout

/-- A quote is written with its sign before each line. -/
theorem writes_quote (written : List.Forall₂ (IsWritten style) ns lss)
    (framed : IsFramed (stacked [[]] lss)) :
    Writes (node style (.branch .blockQuote none ns))
      (List.intercalate (newline l.indent) ((stacked [[]] lss).map quoteLine)) l := by
  obtain ⟨l', hblocks, htext⟩ := blocks_eq_ok (l := {}) written rfl rfl rfl
  have hquoted : Text.lines (Layout.text l') = stacked [[]] lss := by
    rw [htext]
    exact framed.lines_unlines
  refine ⟨_, node_quote hblocks l, ?_⟩
  rw [quoteText, hquoted]
  simp [Layout.text]

theorem isTransparent_paragraph (ls : List String) : isTransparent (paragraphOf ls) = false := by
  have hinline : ∀ n ∈ lineNodes ls, isInline n := by
    intro n hn
    obtain ⟨t, _, rfl⟩ | rfl := mem_lined _ _ hn <;> rfl
  simpa [paragraphOf, isTransparent] using hinline

theorem block_branch {c : Container} {span : Option Span}
    (own : isTransparent (.branch c span ns) = false) (style : Style) :
    block style (.branch c span ns) = (do startBlock; node style (.branch c span ns)) := by
  rw [block, own]
  rfl

theorem isWritten_heading {content : Chars} (level : Level)
    (hinlines : ∀ l, inlines style ns l = .ok text l)
    (hcontent : (if style.escape then headingContent text else text) = content)
    (some : content ≠ []) : IsWritten style (.branch (.heading level) none ns)
    [List.replicate level.number '#' ++ ' ' :: content] where
  inline := rfl
  block := block_branch rfl style
  some := by simp
  writes l _ := by
    rw [Text.unlines_singleton]
    exact writes_heading level (hinlines l) hcontent some

theorem isWritten_heading_words {t : String} (words : IsWords t.toList) (level : Level) :
    IsWritten style (.branch (.heading level) none [.leaf (.text t) none])
      [List.replicate level.number '#' ++ ' ' :: t.toList] := by
  obtain ⟨c, cs, hcons, _⟩ := words.head
  exact isWritten_heading level (inlines_words words) (by rw [headingContent_eq words, ite_self])
    (by simp [hcons])

theorem isWritten_paragraph (prose : IsProse ls) : IsWritten style (paragraphOf ls)
    (lineTexts ls) where
  inline := rfl
  block := block_branch (isTransparent_paragraph ls) style
  some := by simpa [lineTexts] using prose.some
  writes l flush := by
    have h : Writes (node style (paragraphOf ls)) _ l := writes_paragraph prose l
    rwa [flush] at h

/-- A paragraph of a single node is one line. -/
theorem isWritten_single {n : Node} (inline : isInline n)
    (h : ∀ l : Layout, l.out = [] → Writes (node style n) text l) :
    IsWritten style (.branch .paragraph none [n]) [text] where
  inline := rfl
  block := block_branch (by simp [isTransparent, inline]) style
  some := by simp
  writes l _ := by
    have typed : n.kind?.isSome := by
      cases n with
      | foreign v => cases inline
      | leaf x span | branch c span children => rfl
    rw [Text.unlines_singleton, node]
    exact .after (inlines_singleton typed h l) (writes_emit _ l)

theorem isWritten_thematicBreak : IsWritten style (.leaf .thematicBreak none)
    [['*', '*', '*']] where
  inline := rfl
  block := block_leaf style _ none
  some := by simp
  writes l _ := writes_thematicBreak l

theorem isWritten_fenced {t : String} {info : Option String}
    {mark : Chars} (ends : t.toList = [] ∨ t.toList.getLast? = some '\n')
    (hmark : fenceAround style t.toList = .ok mark) :
    IsWritten style (.leaf (.codeBlock t info none) none)
      ((mark ++ (info.getD "").toList) :: codeLines t.toList ++ [mark]) where
  inline := rfl
  block := block_leaf style _ none
  some := by simp
  writes _ flush := writes_codeBlock ends hmark flush

theorem isWritten_code {t : String} (code : IsCode t.toList) (hfence : style.fenceMin = .whole k)
    (room : fenceLength k t.toList ≤ maxLength) :
    IsWritten style (.leaf (.codeBlock t none none) none)
      (fence (fenceLength k t.toList) :: codeLines t.toList ++
        [fence (fenceLength k t.toList)]) := by
  have hwritten : IsWritten style (.leaf (.codeBlock t none none) none) _ :=
    isWritten_fenced code.ends (fenceAround_eq_ok hfence room)
  rwa [Option.getD_none, String.toList_empty, List.append_nil] at hwritten

theorem isWritten_quote (written : List.Forall₂ (IsWritten style) ns lss)
    (framed : IsFramed (stacked [[]] lss)) :
    IsWritten style (.branch .blockQuote none ns) ((stacked [[]] lss).map quoteLine) where
  inline := rfl
  block := block_branch rfl style
  some := by simpa using framed.ne_nil
  writes l flush := by
    have hquote := writes_quote (l := l) written framed
    rwa [flush] at hquote

end Canonmark.Markdown.Writer

namespace Canonmark.Markdown

open Writer (IsWritten)

/-- What is written of a document is trimmed. -/
theorem write_of_node {style : Style} {ns : List Node} {l : Layout}
    (h : Writer.node style (merged (documentOf ns)) {} = .ok () l) :
    write style (documentOf ns) = .ok (String.ofList (Text.trim (Writer.Layout.text l))) := by
  have hdocument : Writer.document style (documentOf ns) {} =
      .ok (String.ofList (Text.trim (Writer.Layout.text l))) { l with out := [] } := by
    change (do Writer.node style (merged (documentOf ns)); _ : Writing String) {} = _
    rw [run_bind_of_ok h]
    rfl
  rw [write, hdocument]

/-- A document of blocks is written as their lines, without white space at the ends. -/
theorem write_of_stacked {style : Style} {ns : List Node} {lss : List (List Chars)}
    (apart : ∀ n ∈ ns, StaysApart n) (written : List.Forall₂ (IsWritten style) ns lss) :
    write style
      (documentOf ns) = .ok (String.ofList (Text.trim (Text.unlines (stacked [[]] lss)))) := by
  obtain ⟨l, hblocks, htext⟩ := Writer.blocks_eq_ok (l := {}) written rfl rfl rfl
  have hnode : Writer.node style (documentOf ns) {} = .ok () l := by
    rw [documentOf, Writer.node]
    exact hblocks
  have htext' : Writer.Layout.text l = Text.unlines (stacked [[]] lss) := htext
  rw [write_of_node (by rwa [merged_documentOf apart]), htext']

/-- A document of blocks is written as their lines. -/
theorem write_of_written {style : Style} {ns : List Node} {lss : List (List Chars)}
    (apart : ∀ n ∈ ns, StaysApart n) (written : List.Forall₂ (IsWritten style) ns lss)
    (framed : lss = [] ∨ IsFramed (stacked [[]] lss)) :
    write style (documentOf ns) = .ok (String.ofList (Text.unlines (stacked [[]] lss))) := by
  have htrim : Text.trim (Text.unlines (stacked [[]] lss)) = Text.unlines (stacked [[]] lss) := by
    obtain rfl | framed := framed
    · rfl
    · exact framed.bounded.trim
  rw [write_of_stacked apart written, htrim]

end Canonmark.Markdown
