import Canonmark.Proofs.Markdown.CodeRoundTrip
import Canonmark.Proofs.Markdown.CodeSpan
import Canonmark.Proofs.Markdown.HeadingText
import Canonmark.Proofs.Markdown.LedLines
import Canonmark.Proofs.Markdown.Settled
import Canonmark.Proofs.Markdown.WrittenInline

/-! Kinds of blocks that are settled. -/
namespace Canonmark.Markdown

open Writer (IsHung)

variable {style : Style} {levels : Nat} {inItem : Bool} {n : Node} {ns ms : List Node}
    {ls : List Chars} {b : Block} {l t : Chars}

theorem holdsIndent_of_mem {c : Char} (h : c ∈ l) (space : isSpace c = false) : HoldsIndent l :=
  .inr ⟨c, h, space⟩

/-- A paragraph is settled if its lines are read as inline content that is merged to it. -/
theorem isSettledIn_paragraph (hung : IsHung style (.branch .paragraph none ns) ls)
    (framed : IsFramed ls) (apart : Merge.pushAll [] ns = ns) (holds : ∀ l ∈ ls, HoldsIndent l)
    (first : ∀ l rest, ls = l :: rest → HasOther style l ∧ ¬BeginsItem l)
    (reads : Reads levels ⟨[], .idle⟩ ls ⟨[], .paragraph ls⟩)
    (phrases : ∀ ds, Token.phrases (Inline.tokens ds (Text.unlines ls)) = ms)
    (merges : Merge.pushAll [] ms = ns) :
    IsSettledIn style levels inItem (.branch .paragraph none ns) ls where
  apart := staysApart_branch apart (by simp) (by simp) (by simp [Container.kind])
  hung := hung
  framed := framed
  holds _ := holds
  other l rest hl := (first l rest hl).1
  alone _ l rest hl := (first l rest hl).2
  begins := by
    rintro k ⟨⟩ hother
    exact absurd rfl hother
  reads := by
    refine ⟨.paragraph (Text.unlines ls), .branch .paragraph none ms, ?_, rfl,
      by simp [Block.absorbsBlank], ?_, ?_⟩
    · exact readsInto_single reads (closeIn_of_framed framed) (endsAtBlank_paragraph levels _) rfl
        (by simp) (givesWay_paragraph levels ls)
    · refine Block.standsFor_single rfl (by simp [Block.kind?]) fun ds final => ?_
      rw [Block.nodes, phrases]
    · exact mergesTo_branch merges (by simp) (by simp) (by simp [Container.kind])

theorem not_beginsItem_of_find? {l : Chars}
    {start : Option Start} (other : ∀ i, start ≠ some (.item i))
    (h : ∀ column, Start.find? .free true ⟨column, l⟩ = start) : ¬BeginsItem l := by
  rintro ⟨column, i, hfind⟩
  exact other i ((h column).symm.trans hfind)

theorem phrases_lines {lines : List String} (words : ∀ l ∈ lines, IsWords l.toList) :
    Token.phrases (lined .text (.sign .softbreak) lines) = lineNodes lines := by
  unfold lineNodes
  fun_induction lined Token.text (.sign .softbreak) lines with
  | case1 => rfl
  | case2 t =>
    rw [Token.phrases, Token.phrase, (words t (by simp)).decoded_eq]
    rfl
  | case3 t u lines ih =>
    obtain ⟨ht, hlines⟩ := List.forall_mem_cons.mp words
    rw [Token.phrases, Token.phrase, ht.decoded_eq, Token.phrases, ih hlines]
    rfl

theorem isSettledIn_prose {lines : List String} (prose : IsProse lines)
    (bullet : style.bullet ∈ ['-', '*', '+']) :
    IsSettledIn style levels inItem (paragraphOf lines) (lineTexts lines) := by
  have hframed := isFramed_prose prose
  have hwords : ∀ l ∈ lineTexts lines, IsWords l := by
    intro l hl
    obtain ⟨t, ht, rfl⟩ := List.mem_map.mp hl
    exact prose.words t ht
  have halone : style.bullet.isAlphanum = false := by
    have hsigns : ∀ sign ∈ ['-', '*', '+'], sign.isAlphanum = false := by simp
    exact hsigns _ bullet
  have hsome : ∀ l ∈ lineTexts lines, l ≠ [] := by
    intro l hl
    obtain ⟨c, cs, rfl, -⟩ := (hwords l hl).head
    exact List.cons_ne_nil c cs
  refine isSettledIn_paragraph (Writer.isHung_prose prose hframed.headed hsome) hframed
    (pushAll_lineNodes lines) (fun l hl => ?_) (fun l rest hl => ?_) (reads_prose prose)
    (fun ds => ?_) (pushAll_lineNodes lines)
  · obtain ⟨c, cs, rfl, hc⟩ := (hwords l hl).head
    exact holdsIndent_of_mem List.mem_cons_self (isSpace_of_isAlphanum hc)
  · have hl : IsWords l := hwords l (hl ▸ List.mem_cons_self)
    exact ⟨(FollowsBullet.of_words hl halone).other,
      not_beginsItem_of_find? (by simp) (hl.find? .free true)⟩
  · rw [tokens_lines ds prose.some prose.words, phrases_lines prose.words]

/-- A paragraph of one line that begins no other block. -/
theorem isSettledIn_line {line : Chars} (hung : IsHung style (.branch .paragraph none ns) [line])
    (framed : IsFramed [line]) (apart : Merge.pushAll [] ns = ns) (other : HasOther style line)
    (find : ∀ nests column, Start.find? .free nests ⟨column, line⟩ = none)
    (advance : ∀ o column, Tip.idle.advance levels o ⟨column, line⟩ = .keep (.paragraph [line]))
    (phrases : ∀ ds, Token.phrases (Inline.tokens ds line) = ms)
    (merges : Merge.pushAll [] ms = ns) :
    IsSettledIn style levels inItem (.branch .paragraph none ns) [line] := by
  refine isSettledIn_paragraph hung framed apart
    (by simpa using .inr ⟨_, other.choose_spec.1, other.choose_spec.2.1⟩) (fun l rest hl => ?_)
    (.cons advance (.nil _)) (fun ds => by rw [Text.unlines_singleton, phrases]) merges
  obtain rfl := (List.cons.inj hl).1
  exact ⟨other, not_beginsItem_of_find? (by simp) (find true)⟩

theorem hasOther_of_head {c : Char} {cs : Chars} (space : isSpace c = false)
    (bullet : style.bullet ∈ ['-', '*', '+']) (other : ∀ sign ∈ ['-', '*', '+'], c ≠ sign) :
    HasOther style (c :: cs) :=
  ⟨c, List.mem_cons_self, space, other _ bullet⟩

/-- A paragraph of settled content, no line of which begins another block. -/
theorem isSettledIn_content (escaped : style.escape) (bullet : style.bullet ∈ ['-', '*', '+'])
    (content : IsSettledContent ns) (ends : ∃ c ∈ (contentText ns).getLast?, Text.isBlank c = false)
    (led : ∀ l ∈ Text.lines (contentText ns), IsLed l)
    (undefined : (contentText ns).head? ≠ some '[') :
    IsSettledIn style levels inItem (.branch .paragraph none ns) (Text.lines (contentText ns)) := by
  obtain ⟨signed, hsettled⟩ := content.settled
  obtain ⟨ms, hmerges, hphrases⟩ := content.exists_phrases
  have hquiet : ∀ l ∈ Text.lines (contentText ns), IsQuiet l := fun l hl => (led l hl).isQuiet
  have hreturn : '\r' ∉ contentText ns := fun hmem => absurd (content.blanks _ hmem rfl) (by decide)
  have hframed := isFramed_lines hquiet ends hreturn
  have hsome : ∀ l ∈ Text.lines (contentText ns), l ≠ [] := by
    intro l hl
    obtain ⟨c, hc, -⟩ := (hquiet l hl).ink
    exact List.ne_nil_of_mem (List.mem_of_mem_head? hc)
  refine isSettledIn_paragraph (content.isHung escaped hframed.headed hsome) hframed
    (pushAll_alone (fun n hn => (hsettled n hn).becomesOne) content.label.meets) (fun l hl => ?_)
    (fun l rest hl => ?_) ?_ (fun ds => by rw [Text.unlines_lines, hphrases]) hmerges
  · obtain ⟨c, hc, hspace, -⟩ := (led l hl).exists_other
    exact holdsIndent_of_mem hc hspace
  · obtain ⟨c, hc, hspace, hother⟩ := (led l (hl ▸ List.mem_cons_self)).exists_other
    have hbullet : c ≠ style.bullet := fun heq => hother (heq ▸ bullet)
    exact ⟨⟨c, hc, hspace, hbullet⟩,
      not_beginsItem_of_find? (by simp) ((hquiet l (hl ▸ List.mem_cons_self)).find .free true)⟩
  · obtain ⟨l, ls, hlines⟩ := List.exists_cons_of_ne_nil (Text.lines_ne_nil (contentText ns))
    rw [hlines] at hquiet hsome ⊢
    refine reads_quiet hquiet ?_
    rwa [← Text.head?_unlines (hsome l List.mem_cons_self) ls, ← hlines, Text.unlines_lines]

theorem pushAll_join {ts : List String} (nonempty : String.join ts ≠ "") :
    Merge.pushAll []
      (ts.map fun t => .leaf (.text t) none) = [.leaf (.text (String.join ts)) none] := by
  have hsome : ts ≠ [] := by
    rintro rfl
    exact nonempty rfl
  exact becomesOne_text hsome rfl [] (by simp)

/-- Texts that references leave as they are join to one text. -/
theorem pushAll_phrases {text : String} {ts : List Chars}
    (some : text ≠ "") (flatten : ts.flatten = text.toList)
    (decoded : ∀ t ∈ ts, Text.decodeReferences t = t) :
    Merge.pushAll []
      (ts.map fun t => .leaf (.text (String.ofList (Text.decodeReferences t))) none) =
        [.leaf (.text text) none] := by
  have hjoin := join_eq_of_flatten flatten
  have hsame : (ts.map fun t => Node.leaf (.text (String.ofList (Text.decodeReferences t))) none) =
      (ts.map String.ofList).map fun t => .leaf (.text t) none := by
    rw [List.map_map]
    exact List.map_congr_left fun t ht => by rw [decoded t ht]; rfl
  rw [hsame, pushAll_join (by rwa [hjoin]), hjoin]

theorem IsTextLine.ne_empty {text : String} (line : IsTextLine text.toList) : text ≠ "" := by
  rintro rfl
  obtain ⟨⟨c, hc, -⟩, -⟩ := line.bounded
  cases hc

/-- A line of text, but for the two defects that the round trip of a text has. -/
theorem isSettledIn_text (escaped : style.escape) (bullet : style.bullet ∈ ['-', '*', '+'])
    {text : String} (line : IsTextLine text.toList) (unfenced : ¬ ['~', '~', '~'] <+: text.toList)
    (keeps : HasWordUnderscore text.toList → KeepsReferences text.toList) :
    IsSettledIn style levels inItem (textParagraph [text]) [escape text.toList] := by
  obtain ⟨ts, hflatten, hdecoded, htokens⟩ := exists_texts line keeps
  obtain ⟨d, ds, hcons, hink, hopen⟩ := escape_cons_of_line line
  have hfind : ∀ nests column, Start.find? .free nests ⟨column, escape text.toList⟩ = none := by
    intro nests column
    obtain ⟨⟨c, hc, hblank⟩, -⟩ := line.bounded
    obtain ⟨cs, hcs⟩ := List.head?_eq_some_iff.mp hc
    rw [hcs] at unfenced ⊢
    exact find?_escape (isSpace_of_not_isBlank hblank) unfenced _ _ column
  have hother : HasOther style (escape text.toList) := by
    obtain ⟨c, cs, hcs⟩ : ∃ c cs, text.toList = c :: cs := by
      obtain ⟨⟨c, hc, -⟩, -⟩ := line.bounded
      exact ⟨c, List.head?_eq_some_iff.mp hc⟩
    obtain ⟨d', ds', hcons', -, hsigns⟩ := exists_escape_cons c cs
    rw [← hcs, hcons] at hcons'
    obtain rfl := (List.cons.inj hcons').1
    rw [hcons]
    refine hasOther_of_head (isSpace_of_not_isBlank hink) bullet fun sign hsign => hsigns sign ?_
    simp only [List.mem_cons, List.not_mem_nil, or_false] at hsign ⊢
    tauto
  refine isSettledIn_line
    (Writer.isHung_single rfl (by rw [hcons]; exact List.cons_ne_nil d ds) fun l _ =>
    writes_escaped escaped text l) (isFramed_escape line) rfl hother hfind (fun o column => ?_)
    (fun ds => by rw [htokens, phrases_texts]) (pushAll_phrases line.ne_empty hflatten hdecoded)
  have hline := hfind (decide (0 < levels)) column
  rw [hcons] at hline ⊢
  exact advance_idle_of_none (isSpace_of_not_isBlank hink) hopen hline o

theorem isSettledIn_codeSpan (bullet : style.bullet ∈ ['-', '*', '+']) {text : String}
    (some : text ≠ "") (blanks : ∀ c ∈ text.toList, Text.isBlank c → c = ' ') :
    IsSettledIn style levels inItem (codeParagraph text) [Writer.codeSpan text.toList] := by
  have hsome : text.toList ≠ [] := by simpa using some
  have hphrases : ∀ ds, Token.phrases (Inline.tokens ds (Writer.codeSpan text.toList)) =
      [.leaf (.code text) none] := by
    intro ds
    rw [tokens_codeSpan hsome blanks, String.ofList_toList]
    rfl
  refine isSettledIn_line (Writer.isHung_single rfl (by rw [codeSpan_cons]; simp) fun l _ => ?_)
    (isFramed_codeSpan blanks) rfl ?_ (find?_codeSpan hsome .free) (fun o column => ?_) hphrases rfl
  · rw [Writer.node]
    exact Writer.writes_emit _ l
  · rw [codeSpan_cons]
    exact hasOther_of_head rfl bullet (by simp)
  · have hfind := find?_codeSpan hsome .free (decide (0 < levels)) column
    rw [codeSpan_cons] at hfind ⊢
    exact advance_idle_of_none rfl (by decide) hfind o

theorem isSettledIn_reference (bullet : style.bullet ∈ ['-', '*', '+']) (r : Reference)
    {dest title label : String} (destination : IsDestination dest.toList)
    (blanks : ∀ c ∈ title.toList, Text.isBlank c → c = ' ')
    (keeps : KeepsAllReferences title.toList) (words : IsWords label.toList) :
    IsSettledIn style levels inItem (referenceParagraph r dest title label)
      [referenceText r label.toList dest.toList title.toList] := by
  obtain ⟨c, cs, hcons, hc⟩ : ∃ c cs,
        referenceText r label.toList dest.toList title.toList = c :: cs ∧ (c = '[' ∨ c = '!') := by
    cases r
    · exact ⟨'[', _, rfl, .inl rfl⟩
    · exact ⟨'!', _, rfl, .inr rfl⟩
  have happart : ∀ r : Reference,
      Merge.pushAll [] [Node.branch (r.container dest title) none [.leaf (.text label) none]] =
      [.branch (r.container dest title) none [.leaf (.text label) none]] :=
    fun r => by cases r <;> rfl
  refine isSettledIn_line
    (Writer.isHung_single (by cases r <;> rfl) (by rw [hcons]; simp) fun _ flush =>
    writes_referenceText words flush) (isFramed_referenceText words destination blanks) (happart
      r) ?_ (fun nests column => ?_)
    (advance_idle_referenceText words _ _) (fun ds => ?_) (happart r)
  · rw [hcons]
    obtain rfl | rfl := hc
    · exact hasOther_of_head rfl bullet (by simp)
    · exact hasOther_of_head rfl bullet (by simp)
  · rw [hcons]
    exact find?_referenceText hc _ _ _ _
  · rw [Inline.tokens_referenceText ds words destination, String.ofList_toList,
      String.ofList_toList, String.ofList_toList, Token.phrases, Token.phrase, Token.phrases,
      Token.phrases, Token.phrase, words.decoded_eq, keeps.decoded_eq]
    rfl

/-- A line that begins a block and is read as the whole of it, or as its first line. -/
structure IsOpening (style : Style) (start : Start) (l : Chars) : Prop where
  other : HasOther style l
  find : ∀ context nests column, Start.find? context nests ⟨column, l⟩ = some start
  underline : ∀ column, Start.underline? ⟨column, l⟩ = none

/-- A block that is settled, and leaves nothing open. -/
theorem isSettledIn_leaf {start : Start} {rest : List Chars} (opening : IsOpening style start l)
    (breaks : ∀ context, start.Breaks context) (alone : start.kind ≠ .list)
    (kind : n.kind? = some start.kind) (apart : StaysApart n) (hung : IsHung style n (l :: rest))
    (framed : IsFramed (l :: rest)) (holds : inItem → ∀ l ∈ rest, HoldsIndent l)
    (reads : Reads levels ⟨[], .idle⟩ (l :: rest) ⟨[b], .idle⟩)
    (same : b.kind? = some start.kind) (free : b.absorbsBlank = false) (content : b.hasContent)
    (stands : ∃ m, (∀ ds final, Block.nodes ds final b = [m]) ∧ MergesTo m n) :
    IsSettledIn style levels inItem n (l :: rest) where
  apart := apart
  hung := hung
  framed := framed
  holds hitem := by
    obtain ⟨c, hc, hspace, -⟩ := opening.other
    exact List.forall_mem_cons.mpr ⟨.inr ⟨c, hc, hspace⟩, holds hitem⟩
  other := by
    rintro _ _ ⟨⟩
    exact opening.other
  alone := by
    rintro - _ _ ⟨⟩ ⟨column, i, hfind⟩
    obtain rfl := Option.some.inj ((opening.find .free true column).symm.trans hfind)
    exact alone rfl
  begins := by
    rintro k hk - _ _ ⟨⟩ column
    exact ⟨start, opening.find .free _ column, Option.some.inj (kind.symm.trans hk), breaks _,
      fun _ => ⟨breaks _, opening.underline column⟩⟩
  reads := by
    obtain ⟨m, hnodes, hmerges⟩ := stands
    have hother : b.kind? ≠ some .list := by simpa [same] using alone
    refine ⟨b, m, ?_, same.trans kind.symm, by simp [free],
      Block.standsFor_single content hother hnodes, hmerges⟩
    exact readsInto_single reads (fun _ => rfl) (endsAtBlank_idle levels) same alone
      (givesWay_idle levels _)

theorem mergesTo_leaf {x : Leaf} (other : ∀ t, x ≠ .text t ∧ x ≠ .code t) :
    MergesTo (.leaf x none) (.leaf x none) := by
  intro siblings
  rw [Merge.push]
  all_goals simp [other]

theorem isSettledIn_thematicBreak (stars : style.bullet ≠ '*') :
    IsSettledIn style levels inItem (.leaf .thematicBreak none) [['*', '*', '*']] := by
  have hadvance : ∀ o column, Tip.idle.advance levels o ⟨column, ['*', '*', '*']⟩ =
      .leaf .thematicBreak := by
    intro o column
    rw [advance_idle_of_find? rfl (find?_thematicBreak _ _ column), Tip.start]
  have hopening : IsOpening style .thematicBreak ['*', '*', '*'] :=
    ⟨⟨'*', List.mem_cons_self, rfl, stars.symm⟩, find?_thematicBreak, fun _ => rfl⟩
  have happart : MergesTo (.leaf .thematicBreak none) (.leaf .thematicBreak none) :=
    mergesTo_leaf (by simp)
  exact isSettledIn_leaf hopening (fun _ => trivial) (by simp [Start.kind]) rfl happart
    Writer.isHung_thematicBreak (isFramed_singleton (by decide) ⟨⟨'*', rfl, rfl⟩, '*', rfl, rfl⟩)
    (by simp) (.cons hadvance (.nil _)) rfl rfl rfl ⟨_, fun _ _ => rfl, happart⟩

theorem IsTextLine.not_endsInLooseHashes {s : Chars} (line : IsTextLine s) :
    ¬EndsInLooseHashes s := by
  rintro ⟨before, n, rfl, -⟩
  obtain ⟨c, hc, hink⟩ := line.bounded.2
  rw [List.replicate_succ', ← List.append_assoc, List.getLast?_concat] at hc
  obtain rfl := Option.some.inj hc
  cases hink

/-- A line of text is written in a heading without white space at its ends. -/
theorem IsTextLine.bounded_headingContent {s : Chars} (line : IsTextLine s) :
    Text.Bounded Text.isBlank (Writer.headingContent (escape s)) := by
  obtain ⟨ms, -, hsigns, hcontent, -⟩ := exists_marks_headingContent line.blanks
  rw [hcontent]
  exact bounded_flatMap_text (by rw [hsigns]; exact line.bounded)

theorem IsHeadingLine.eq_of_bounded {content line t : Chars} (h : IsHeadingLine content line t)
    (bounded : Text.Bounded Text.isBlank content) : line = content := by
  obtain ⟨trail, rfl, hblank⟩ := h.trail
  obtain rfl | ⟨trail, c, rfl⟩ := trail.eq_nil_or_concat'
  · exact (List.append_nil line).symm
  · obtain ⟨d, hd, hink⟩ := bounded.2
    rw [← List.append_assoc, List.getLast?_concat] at hd
    obtain rfl := Option.some.inj hd
    rw [hblank c (by simp)] at hink
    cases hink

/-- A heading is settled if its line is read as inline content that is merged to it. -/
theorem isSettledIn_headingLine (escaped : style.escape)
    (bullet : style.bullet ∈ ['-', '*', '+']) (level : Level) {written content : Chars}
    (inlines : ∀ l, Writer.inlines style ns l = .ok written l)
    (heading : Writer.headingContent written = content)
    (line : IsHeadingLine content content t) (apart : Merge.pushAll [] ns = ns)
    (phrases : ∀ ds, Token.phrases (Inline.tokens ds t) = ms) (merges : Merge.pushAll [] ms = ns) :
    IsSettledIn style levels inItem (.branch (.heading level) none ns)
      [List.replicate level.number '#' ++ ' ' :: content] := by
  have hfind := find?_heading level line.reads
  have hsign : '#' ∈ List.replicate level.number '#' ++ ' ' :: content := by
    cases level <;> exact List.mem_cons_self
  have hwritten : content ≠ [] := by
    obtain ⟨c, hc, -⟩ := line.last
    exact List.ne_nil_of_mem (List.mem_of_getLast? hc)
  have hsigns : ∀ sign ∈ ['-', '*', '+'], '#' ≠ sign := by simp
  have hopening :
      IsOpening style (.heading level t) (List.replicate level.number '#' ++ ' ' :: content) :=
    ⟨⟨'#', hsign, rfl, hsigns _ bullet⟩, hfind, fun column =>
      underline?_of_find? (hfind .paragraph true column) (by simp)⟩
  refine isSettledIn_leaf hopening (fun _ => trivial) (by simp [Start.kind])
    rfl (staysApart_branch apart (by simp) (by simp) (by simp [Container.kind]))
    (Writer.isHung_heading level inlines ((if_pos escaped).trans heading) hwritten)
    (line.isFramed level) (by simp) (.cons (advance_idle_heading level line.reads) (.nil _)) rfl rfl
    rfl ⟨.branch (.heading level) none ms, fun ds final => ?_, ?_⟩
  · have hempty : t.isEmpty = false := by simpa using line.nonempty
    rw [Block.nodes, Reader.headingContent, hempty, if_neg Bool.false_ne_true, phrases]
  · exact mergesTo_branch merges (by simp) (by simp) (by simp [Container.kind])

/-- A heading without text is its signs. -/
theorem find?_signs (level : Level) (context : Context) (nests : Bool) (column : Nat) :
    Start.find? context nests ⟨column, List.replicate level.number '#'⟩ =
    some (.heading level []) := by
  have hheading : Start.heading? (List.replicate level.number '#') = some (level, []) := by
    cases level <;> rfl
  obtain ⟨cs, hcs⟩ : ∃ cs, List.replicate level.number '#' = '#' :: cs := by
    cases level <;> exact ⟨_, rfl⟩
  rw [hcs] at hheading ⊢
  rw [Start.find?, isIndented_of_head rfl, quoteRest?_of_head rfl (by decide),
    content_of_head rfl, hheading]
  simp

theorem isSettledIn_emptyHeading (escaped : style.escape) (bullet : style.bullet ∈ ['-', '*', '+'])
    (level : Level) :
    IsSettledIn style levels inItem (textHeading level [""]) [List.replicate level.number '#'] := by
  have hfind := find?_signs level
  have hsigns : ∀ sign ∈ ['-', '*', '+'], '#' ≠ sign := by simp
  obtain ⟨cs, hcs⟩ : ∃ cs, List.replicate level.number '#' = '#' :: cs := by
    cases level <;> exact ⟨_, rfl⟩
  have hsign : '#' ∈ List.replicate level.number '#' := hcs ▸ List.mem_cons_self
  have hopening : IsOpening style (.heading level []) (List.replicate level.number '#') :=
    ⟨⟨'#', hsign, rfl, hsigns _ bullet⟩, hfind,
      fun column => underline?_of_find? (hfind .paragraph true column) (by simp)⟩
  have hadvance : ∀ o column, Tip.idle.advance levels o ⟨column, List.replicate level.number '#'⟩ =
      .leaf (.heading level []) := by
    intro o column
    have hstart := hfind .free (decide (0 < levels)) column
    rw [hcs] at hstart ⊢
    rw [advance_idle_of_find? rfl hstart, Tip.start]
  have hhung : IsHung style (textHeading level [""]) [List.replicate level.number '#'] := by
    refine Writer.isHung_line rfl (Writer.block_branch rfl style) (ofBlock_single rfl rfl)
      (List.ne_nil_of_mem hsign) fun l => ?_
    have hnone : (if style.escape then Writer.headingContent (escape "".toList)
          else escape "".toList) = [] := by
      rw [if_pos escaped]
      rfl
    rw [textHeading, Writer.node]
    refine .after (inlines_text escaped "" l) ?_
    dsimp only
    rw [hnone]
    exact Writer.writes_emit _ l
  have hframed : IsFramed [List.replicate level.number '#'] := by
    cases level <;> exact isFramed_singleton (by decide) ⟨⟨'#', rfl, rfl⟩, '#', rfl, rfl⟩
  have happart : MergesTo (textHeading level [""]) (textHeading level [""]) :=
    mergesTo_branch rfl (by simp) (by simp) (by simp [Container.kind])
  exact isSettledIn_leaf hopening (fun _ => trivial) (by simp [Start.kind]) rfl
    (staysApart_branch rfl (by simp) (by simp) (by simp [Container.kind])) hhung hframed (by simp)
    (.cons hadvance (.nil _)) rfl rfl rfl ⟨_, fun _ _ => rfl, happart⟩

/-- A heading of a line of text, but for the defect that an underscore and a reference side by side
have. -/
theorem isSettledIn_heading (escaped : style.escape) (bullet : style.bullet ∈ ['-', '*', '+'])
    (level : Level) {text : String} (line : IsTextLine text.toList)
    (keeps : HasWordUnderscore text.toList → KeepsReferences text.toList) :
    IsSettledIn style levels inItem (textHeading level [text])
      [List.replicate level.number '#' ++ ' ' :: Writer.headingContent (escape text.toList)] := by
  have htrim : Text.trim text.toList = text.toList := line.bounded.trim
  have hsome : text.toList ≠ [] := by simpa using line.ne_empty
  obtain ⟨content, t, hline, ts, hflatten, hdecoded, htokens⟩ :=
    exists_heading_line line.blanks (by rwa [htrim]) line.not_endsInLooseHashes keeps
  obtain rfl := hline.eq_of_bounded line.bounded_headingContent
  rw [htrim] at hflatten
  exact isSettledIn_headingLine escaped bullet level (inlines_text escaped text) rfl hline rfl
    (fun ds => by rw [htokens, phrases_texts]) (pushAll_phrases line.ne_empty hflatten hdecoded)

/-- A heading of settled content on one line, which does not end in a hash. -/
theorem isSettledIn_headingContent (escaped : style.escape)
    (bullet : style.bullet ∈ ['-', '*', '+']) (level : Level) (content : IsSettledContent ns)
    (single : '\n' ∉ contentText ns) (bounded : Text.Bounded Text.isBlank (contentText ns))
    (unclosed : (contentText ns).getLast? ≠ some '#') :
    IsSettledIn style levels inItem (.branch (.heading level) none ns)
      [List.replicate level.number '#' ++ ' ' :: contentText ns] := by
  obtain ⟨signed, hsettled⟩ := content.settled
  obtain ⟨ms, hmerges, hphrases⟩ := content.exists_phrases
  obtain ⟨c, hc, hink⟩ := bounded.2
  obtain ⟨cs, hcs⟩ := List.getLast?_eq_some_iff.mp hc
  have hhash : (c == '#') = false := by
    rw [hc] at unclosed
    simpa using unclosed
  have hdrop : Text.dropEndWhile (· == '#') (contentText ns) = contentText ns := by
    rw [hcs]
    exact Text.dropEndWhile_of_getLast (p := (· == '#')) hhash cs
  have hinlines : ∀ l, Writer.inlines style ns l = .ok (contentText ns) l := by
    intro l
    rw [content.inlines escaped, inset_of_not_mem single]
  have hheading : Writer.headingContent (contentText ns) = contentText ns := by
    have hend : ((contentText ns).getLast? == some '\n') = false := by
      rw [hc]
      simp only [Option.some_beq_some, beq_eq_false_iff_ne]
      rintro rfl
      cases hink
    have hhashes : Text.takeEndWhile (· == '#') (contentText ns) = [] := by
      rw [hcs, Text.takeEndWhile_concat, hhash]
      rfl
    rw [Writer.headingContent, hend, if_neg Bool.false_ne_true, Writer.escapeClosingHashes, hhashes]
    rfl
  have hreads : Start.headingText ([' '] ++ contentText ns) = contentText ns :=
    headingText_of_bounded (by simp [isSpace]) (bounded.mono fun _ => isSpace_of_not_isBlank)
      ⟨c, by rw [hdrop]; exact hc, isSpace_of_not_isBlank hink⟩
  refine isSettledIn_headingLine escaped bullet level hinlines hheading ?_
    (pushAll_alone (fun n hn => (hsettled n hn).becomesOne) content.label.meets) hphrases hmerges
  exact {
    trail := ⟨[], (List.append_nil _).symm, by simp⟩
    blanks := fun d hd hblank => (content.blanks d hd hblank).resolve_right fun hend =>
      single (hend ▸ hd)
    last := ⟨c, hc, hink⟩
    reads := hreads
    nonempty := List.ne_nil_of_mem (List.mem_of_getLast? hc) }

/-- Code is settled that has room between fences; in an item, none of its lines may be of white
space only. -/
theorem isSettledIn_code (bullet : style.bullet ∈ ['-', '*', '+']) {t : String}
    {info : Option String} {k : Nat} (code : IsCodeText t info) (fence : NeedsFence style t k)
    (long : 3 ≤ k) (solid : inItem → ∀ l ∈ Writer.codeLines t.toList, HoldsIndent l) :
    IsSettledIn style levels inItem (.leaf (.codeBlock t info none) none)
      ((Writer.fence k ++ (info.getD "").toList) :: Writer.codeLines t.toList ++
        [Writer.fence k]) := by
  have hframed : IsFramed ((Writer.fence k ++ (info.getD "").toList) :: Writer.codeLines t.toList ++
        [Writer.fence k]) :=
    isFramed_fenced code.clean code.word_getD long
  obtain ⟨cs, hcs⟩ := fence_eq_cons long
  have hsign : '\x60' ∈ Writer.fence k := hcs ▸ List.mem_cons_self
  have hsigns : ∀ sign ∈ ['-', '*', '+'], '\x60' ≠ sign := by simp
  have hopening : IsOpening style (.fence { plainFence k with info := (info.getD "").toList })
      (Writer.fence k ++ (info.getD "").toList) :=
    ⟨⟨'\x60', List.mem_append_left _ hsign, rfl, hsigns _ bullet⟩,
      find?_fence long code.word_getD, fun column =>
      underline?_of_find? (find?_fence long code.word_getD .paragraph true column) (by simp)⟩
  have happart :
      MergesTo (.leaf (.codeBlock t info none) none) (.leaf (.codeBlock t info none) none) :=
    mergesTo_leaf (by simp)
  refine isSettledIn_leaf hopening (fun _ => trivial) (by simp [Start.kind]) rfl
    happart (Writer.isHung_fenced code.ends fence.fenceAround hframed) hframed
    (fun hitem l hl => ?_) (reads_code code.ends code.word long fence.longestRun_lt) rfl rfl rfl
    ⟨_, fun ds final => rfl, ?_⟩
  · obtain hl | hl := List.mem_append.mp hl
    · exact solid hitem l hl
    · obtain rfl := List.mem_singleton.mp hl
      exact holdsIndent_of_mem hsign rfl
  · rw [String.ofList_toList, Option.getD_some, String.ofList_toList, codeInfo_of_word code.word]
    exact happart

end Canonmark.Markdown
