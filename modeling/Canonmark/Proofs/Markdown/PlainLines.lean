import Canonmark.Proofs.Markdown.Growing
import Canonmark.Proofs.Markdown.Written

/-! How the lines of plain blocks are read. -/
namespace Canonmark.Markdown

section Start

variable {c : Char} {cs : Chars}

theorem indent_of_head (space : isSpace c = false) (column : Nat) :
    (Line.mk column (c :: cs)).indent = 0 := by
  obtain ⟨hspace, htab⟩ : (c == ' ') = false ∧ (c == '\t') = false := by
    simpa [isSpace] using space
  simp [Line.indent, Line.indentFrom, hspace, htab]

theorem content_of_head (space : isSpace c = false) (column : Nat) :
    (Line.mk column (c :: cs)).content = c :: cs := Text.dropWhile_of_head space

theorem atContent_of_head (space : isSpace c = false) (column : Nat) :
    (Line.mk column (c :: cs)).atContent = ⟨column, c :: cs⟩ := by
  rw [Line.atContent, indent_of_head space, content_of_head space, Nat.add_zero]

theorem isIndented_of_head (space : isSpace c = false) (column : Nat) :
    (Line.mk column (c :: cs)).isIndented = false := by
  rw [Line.isIndented, indent_of_head space]
  rfl

theorem isBlank_of_head (space : isSpace c = false) (column : Nat) :
    (Line.mk column (c :: cs)).isBlank = false := by
  simp [Line.isBlank, space]

theorem quoteRest?_of_head (space : isSpace c = false) (other : c ≠ '>') (column : Nat) :
    Start.quoteRest? ⟨column, c :: cs⟩ = none := by
  rw [Start.quoteRest?, isIndented_of_head space, atContent_of_head space]
  simp [other]

theorem heading?_of_head (other : c ≠ '#') : Start.heading? (c :: cs) = none := by
  simp [Start.heading?, other]

theorem blockKind?_of_head (other : c ≠ '<') (interrupts : Bool) :
    RawHtml.blockKind? interrupts (c :: cs) = none := by
  unfold RawHtml.blockKind?
  split
  · rename_i heq
    cases heq
    exact absurd rfl other
  · rfl

theorem isThematicBreak_of_head (space : isSpace c = false) (other : c ≠ '*' ∧ c ≠ '-' ∧ c ≠ '_') :
    Start.isThematicBreak (c :: cs) = false := by
  simp [Start.isThematicBreak, space, other]

/-- A line that begins with an ordinary sign begins no block, unless it opens a fence or an item. -/
theorem find?_of_head (space : isSpace c = false)
    (other : ∀ sign ∈ ['#', '>', '<', '*', '-', '_'], c ≠ sign) {column : Nat}
    (fence : Start.fence? 0 (c :: cs) = none) (item : Start.item? ⟨column, c :: cs⟩ = none)
    (context : Context) (nests : Bool) : Start.find? context nests ⟨column, c :: cs⟩ = none := by
  have hbreak : Start.isThematicBreak (c :: cs) = false :=
    isThematicBreak_of_head space
      ⟨other '*' (by decide), other '-' (by decide), other '_' (by decide)⟩
  rw [Start.find?, isIndented_of_head space, content_of_head space, indent_of_head space,
    quoteRest?_of_head space (other '>' (by decide)), heading?_of_head (other '#' (by decide)),
    fence, blockKind?_of_head (other '<' (by decide)), hbreak, item]
  simp

theorem underline?_of_head (space : isSpace c = false) (other : c ≠ '=' ∧ c ≠ '-') (column : Nat) :
    Start.underline? ⟨column, c :: cs⟩ = none := by
  have hmem : c ∈ Text.dropEndWhile isSpace (c :: cs) := by
    have hsplit : c ∈ Text.dropEndWhile isSpace (c :: cs) ++
        Text.takeEndWhile isSpace (c :: cs) := by
      rw [Text.dropEndWhile_append_takeEndWhile]
      exact List.mem_cons_self
    refine (List.mem_append.mp hsplit).resolve_right fun hmem => ?_
    rw [Text.takeEndWhile, List.mem_reverse] at hmem
    rw [List.mem_takeWhile_imp hmem] at space
    cases space
  have hnot : ∀ sign, c ≠ sign → (Text.dropEndWhile isSpace (c :: cs)).all (· == sign) = false := by
    intro sign hsign
    rw [List.all_eq_false]
    exact ⟨c, hmem, by simpa using hsign⟩
  rw [Start.underline?, content_of_head space]
  simp only [hnot _ other.1, hnot _ other.2, Bool.false_eq_true, if_false, ite_self]

end Start

variable {s : Chars} {level : Level}

theorem fence?_of_head {c : Char} {cs : Chars} (other : c ≠ '~' ∧ c ≠ '\x60') (indent : Nat) :
    Start.fence? indent (c :: cs) = none := by
  simp [Start.fence?, other]

theorem IsWords.item? (h : IsWords s) (column : Nat) : Start.item? ⟨column, s⟩ = none := by
  obtain ⟨c, cs, rfl, hc⟩ := h.head
  have hsign : ∀ sign rest n, (c :: cs).drop n = sign :: rest → sign ∈ c :: cs :=
    fun sign rest n hdrop => List.mem_of_mem_drop (i := n) (by simp [hdrop])
  have hmarker : Start.marker? (c :: cs) = none := by
    have hbullet : (c == '-' || c == '+' || c == '*') = false := by simp [ne_of_isAlphanum hc]
    rw [Start.marker?, hbullet]
    dsimp only
    split
    · contradiction
    · split
      · rfl
      · split
        · rename_i hdrop
          exact absurd (hsign _ _ _ hdrop) (h.not_mem '.' (by decide))
        · rename_i hdrop
          exact absurd (hsign _ _ _ hdrop) (h.not_mem ')' (by decide))
        · rfl
  rw [Start.item?, atContent_of_head (isSpace_of_isAlphanum hc), hmarker]
  rfl

theorem IsWords.find? (h : IsWords s) (context : Context) (nests : Bool) (column : Nat) :
    Start.find? context nests ⟨column, s⟩ = none := by
  have hitem := h.item? column
  obtain ⟨c, cs, rfl, hc⟩ := h.head
  have hsigns : ∀ sign ∈ ['#', '>', '<', '*', '-', '_'], sign.isAlphanum = false := by simp
  exact find?_of_head (isSpace_of_isAlphanum hc)
    (fun sign hsign => ne_of_isAlphanum hc sign (hsigns sign hsign))
    (fence?_of_head ⟨ne_of_isAlphanum hc _ rfl, ne_of_isAlphanum hc _ rfl⟩ 0) hitem context nests

theorem IsWords.underline? (h : IsWords s) (column : Nat) :
    Start.underline? ⟨column, s⟩ = none := by
  obtain ⟨c, cs, rfl, hc⟩ := h.head
  exact underline?_of_head (isSpace_of_isAlphanum hc)
    ⟨ne_of_isAlphanum hc _ rfl, ne_of_isAlphanum hc _ rfl⟩ column

variable {levels : Nat} {ls : List String} {l : Chars}

/-- A line that begins no other block begins a paragraph, or a definition. -/
theorem advance_idle_of_none {c : Char} {cs : Chars} (space : isSpace c = false) (other : c ≠ '[')
    {column : Nat} (h : Start.find? .free (decide (0 < levels)) ⟨column, c :: cs⟩ = none)
    (o : Outlook) : Tip.idle.advance levels o ⟨column, c :: cs⟩ = .keep (.paragraph [c :: cs]) := by
  rw [Tip.advance, Tip.fresh, Tip.freshBy, isBlank_of_head space, h]
  simp only [Bool.false_eq_true, if_false]
  rw [Tip.freshText, content_of_head space]
  simp [other]

/-- A line with which a paragraph goes on wherever it stands. -/
structure IsQuiet (l : Chars) : Prop where
  ink : ∃ c ∈ l.head?, Text.isBlank c = false
  find : ∀ context nests column, Start.find? context nests ⟨column, l⟩ = none
  underline : ∀ column, Start.underline? ⟨column, l⟩ = none

theorem IsQuiet.advance_idle (h : IsQuiet l) (other : l.head? ≠ some '[') (o : Outlook)
    (column : Nat) : Tip.idle.advance levels o ⟨column, l⟩ = .keep (.paragraph [l]) := by
  have hfind := h.find .free (decide (0 < levels)) column
  obtain ⟨c, hc, hink⟩ := h.ink
  obtain ⟨cs, rfl⟩ := List.head?_eq_some_iff.mp hc
  exact advance_idle_of_none (isSpace_of_not_isBlank hink) (by simpa using other) hfind o

theorem IsQuiet.advance_paragraph (h : IsQuiet l) (lines : List Chars) (o : Outlook)
    (column : Nat) :
    (Tip.paragraph lines).advance levels o ⟨column, l⟩ = .keep (.paragraph (lines ++ [l])) := by
  have hblank : (Line.mk column l).isBlank = false := by
    obtain ⟨c, hc, hink⟩ := h.ink
    obtain ⟨cs, rfl⟩ := List.head?_eq_some_iff.mp hc
    exact isBlank_of_head (isSpace_of_not_isBlank hink) column
  rw [Tip.advance, hblank, h.underline, h.find]
  rfl

/-- Quiet lines are gathered by a paragraph. -/
theorem reads_paragraph {rest : List Chars} (quiet : ∀ l ∈ rest, IsQuiet l) (lines : List Chars) :
    Reads levels ⟨[], .paragraph lines⟩ rest ⟨[], .paragraph (lines ++ rest)⟩ := by
  induction rest generalizing lines with
  | nil =>
    rw [List.append_nil]
    exact .nil _
  | cons l rest ih =>
    obtain ⟨hl, hrest⟩ := List.forall_mem_cons.mp quiet
    have h := ih hrest (lines ++ [l])
    rw [List.append_assoc] at h
    exact .cons (hl.advance_paragraph lines) h

/-- Quiet lines are a paragraph, unless the first one may be a definition. -/
theorem reads_quiet {rest : List Chars}
    (quiet : ∀ m ∈ l :: rest, IsQuiet m) (other : l.head? ≠ some '[') :
    Reads levels ⟨[], .idle⟩ (l :: rest) ⟨[], .paragraph (l :: rest)⟩ := by
  obtain ⟨hl, hrest⟩ := List.forall_mem_cons.mp quiet
  exact .cons (hl.advance_idle other) (reads_paragraph hrest [l])

theorem IsWords.isQuiet (h : IsWords s) : IsQuiet s where
  ink := by
    obtain ⟨c, cs, rfl, hc⟩ := h.head
    exact ⟨c, rfl, isBlank_of_isAlphanum hc⟩
  find := h.find?
  underline := h.underline?

theorem reads_prose (prose : IsProse ls) :
    Reads levels ⟨[], .idle⟩ (lineTexts ls) ⟨[], .paragraph (lineTexts ls)⟩ := by
  obtain ⟨some, words⟩ := prose
  obtain ⟨l, ls, rfl⟩ := List.exists_cons_of_ne_nil some
  have hquiet : ∀ m ∈ lineTexts (l :: ls), IsQuiet m :=
    List.forall_mem_map.mpr fun t ht => (words t ht).isQuiet
  obtain ⟨c, cs, hl, hc⟩ := (words l List.mem_cons_self).head
  refine reads_quiet hquiet ?_
  rw [hl]
  simpa using ne_of_isAlphanum hc '[' rfl

theorem isFramed_prose (prose : IsProse ls) : IsFramed (lineTexts ls) where
  single := by
    intro l hl
    obtain ⟨t, ht, rfl⟩ := List.mem_map.mp hl
    have words := prose.words t ht
    exact ⟨words.not_mem '\n' (by decide), words.not_mem '\r' (by decide)⟩
  first := by
    obtain ⟨l, ls, rfl⟩ := List.exists_cons_of_ne_nil prose.some
    obtain ⟨c, cs, hl, hc⟩ := (prose.words l (by simp)).head
    exact ⟨c, cs, lineTexts ls, by rw [lineTexts, List.map_cons, hl]; rfl, isBlank_of_isAlphanum hc⟩
  last := by
    obtain hnil | ⟨ls, l, rfl⟩ := ls.eq_nil_or_concat
    · exact absurd hnil prose.some
    · obtain ⟨cs, c, hl, hc⟩ := (prose.words l (by simp)).last
      exact ⟨lineTexts ls, cs, c, by simp [lineTexts, hl], isBlank_of_isAlphanum hc⟩

theorem paragraphText_of_framed {lines : List Chars} (framed : IsFramed lines) :
    Tip.paragraphText lines = Text.unlines lines := by
  have hstart := (framed.bounded.mono fun _ => isLineSpace_of_not_isBlank).dropWhile
  have hend := (framed.bounded.mono fun _ => isSpace_of_not_isBlank).dropEndWhile
  rw [Tip.paragraphText, hstart, hend]

theorem paragraphBlocks_of_framed {lines : List Chars} (framed : IsFramed lines) :
    Tip.paragraphBlocks lines = [.paragraph (Text.unlines lines)] := by
  rw [Tip.paragraphBlocks, paragraphText_of_framed framed]
  obtain ⟨⟨c, hc, _⟩, _⟩ := framed.bounded
  obtain ⟨cs, hcs⟩ := List.head?_eq_some_iff.mp hc
  rw [hcs]
  rfl

/-- A paragraph that ends in ink is the same at the end of an item. -/
theorem closeIn_of_framed {lines : List Chars} (framed : IsFramed lines) (inItem : Bool) :
    (Tip.paragraph lines).closeIn inItem = [.paragraph (Text.unlines lines)] := by
  have hlast : Tip.lastLines inItem lines = lines := by
    cases inItem with
    | false => rfl
    | true =>
      obtain ⟨rest, cs, c, hlines, hc⟩ := framed.last
      rw [hlines, Tip.lastLines, if_pos rfl, List.reverse_append, List.reverse_singleton,
        List.singleton_append, List.dropWhile_cons_of_neg (by simp [hc])]
      simp
  rw [Tip.closeIn, hlast, paragraphBlocks_of_framed framed]

/-- Lines of words stand for a text each, and a soft break between two. -/
theorem gives_lines (words : ∀ l ∈ ls, IsWords l.toList) :
    Gives (lineNodes ls) (Token.eventsOf (lined .text (.sign .softbreak) ls)) := by
  unfold lineNodes
  fun_induction lined Token.text (.sign .softbreak) ls with
  | case1 => exact gives_nil
  | case2 l =>
    have h := gives_text l
    rw [(words l (by simp)).decoded_eq] at h
    exact h.token
  | case3 l m ls ih =>
    obtain ⟨hl, hls⟩ := List.forall_mem_cons.mp words
    have h := gives_text l
    rw [hl.decoded_eq] at h
    exact h.token.eventsOf_append
      ((gives_sign (s := .softbreak) (l := .softbreak) rfl).token.eventsOf_append (ih hls))

theorem standFor_prose (prose : IsProse ls) :
    StandFor [.paragraph (Text.unlines (lineTexts ls))] [paragraphOf ls] := by
  intro ds
  rw [Reader.tokensIn, Reader.token, tokens_lines ds prose.some prose.words]
  exact (gives_wrapper (w := .paragraph) (c := .paragraph) rfl (gives_lines prose.words)).token

theorem endsAtBlank_paragraph (levels : Nat) (lines : List Chars) :
    (Tip.paragraph lines).EndsAtBlank levels :=
  fun _ _ => rfl

theorem readsApart_prose (prose : IsProse ls) :
    ReadsApart levels (lineTexts ls) [paragraphOf ls] := by
  refine ⟨[], .paragraph (lineTexts ls), reads_prose prose, ?_, endsAtBlank_paragraph levels _⟩
  change StandFor (Tip.paragraphBlocks (lineTexts ls)) _
  rw [paragraphBlocks_of_framed (isFramed_prose prose)]
  exact standFor_prose prose

/-- A line that begins a paragraph is read as a paragraph of what its text gives. -/
theorem readsApart_line {line : Chars} {ns : List Node} (framed : IsFramed [line])
    (advance : ∀ o column, Tip.idle.advance levels o ⟨column, line⟩ = .keep (.paragraph [line]))
    (gives : ∀ ds, Gives ns (Token.eventsOf (Inline.tokens ds line))) :
    ReadsApart levels [line] [.branch .paragraph none ns] := by
  refine ⟨[], .paragraph [line], .cons advance (.nil _), fun ds =>
    ?_, endsAtBlank_paragraph levels _⟩
  change Gives _ (Token.eventsOf (Reader.tokensIn ds false (Tip.paragraphBlocks [line])))
  rw [paragraphBlocks_of_framed framed, Text.unlines_singleton, Reader.tokensIn, Reader.token]
  exact (gives_wrapper (w := .paragraph) (c := .paragraph) rfl (gives ds)).token

/-- A line that is a block of its own. -/
theorem readsApart_leaf {l : Chars} {b : Block} {n : Node}
    (advance : ∀ o column, Tip.idle.advance levels o ⟨column, l⟩ = .leaf b)
    (stands : StandFor [b] [n]) : ReadsApart levels [l] [n] :=
  ⟨[b], .idle, .cons advance (.nil _), stands, endsAtBlank_idle levels⟩

theorem advance_idle_of_find? {c : Char} {cs : Chars} {start : Start} (space : isSpace c = false)
    {column : Nat} (h : Start.find? .free (decide (0 < levels)) ⟨column, c :: cs⟩ = some start)
    (o : Outlook) :
    Tip.idle.advance levels o ⟨column, c :: cs⟩ = Tip.start levels o start ⟨column, c :: cs⟩ := by
  rw [Tip.advance, Tip.fresh, Tip.freshBy, isBlank_of_head space, h]
  rfl

theorem find?_thematicBreak (context : Context) (nests : Bool) (column : Nat) :
    Start.find? context nests ⟨column, ['*', '*', '*']⟩ = some .thematicBreak := by
  cases context <;> cases nests <;> rfl

theorem readsApart_thematicBreak :
    ReadsApart levels [['*', '*', '*']] [.leaf .thematicBreak none] := by
  refine readsApart_leaf (b := .thematicBreak) (fun o column => ?_) fun ds =>
    (gives_sign (s := .thematicBreak) (l := .thematicBreak) rfl).token
  rw [advance_idle_of_find? rfl (find?_thematicBreak _ _ column), Tip.start]

theorem headingText_words (words : IsWords s) : Start.headingText (' ' :: s) = s := by
  have htrim : trimSpaces (' ' :: s) = s := by
    have hbounded := words.bounded fun _ => isSpace_of_isAlphanum
    rw [trimSpaces, List.dropWhile_cons_of_pos rfl, hbounded.dropWhile, hbounded.dropEndWhile]
  have hhashes : Text.dropEndWhile (· == '#') s = s :=
    (words.bounded fun c hc => by simp [ne_of_isAlphanum hc]).dropEndWhile
  obtain ⟨cs, c, hlast, hc⟩ := words.last
  rw [Start.headingText, htrim, hhashes]
  simp [hlast, isSpace_of_isAlphanum hc]

/-- The signs of a heading, and what follows them. -/
theorem heading?_of_signs (level : Level) (rest : Chars) :
    Start.heading? (List.replicate level.number '#' ++ ' ' :: rest) =
    some (level, Start.headingText (' ' :: rest)) := by
  have hsigns : (List.replicate level.number '#' ++ ' ' :: rest).takeWhile (· == '#') =
      List.replicate level.number '#' := by
    rw [List.takeWhile_append_of_pos (by simp), List.takeWhile_cons_of_neg (by decide),
      List.append_nil]
  have hdrop : (List.replicate level.number '#' ++ ' ' :: rest).drop
      (List.replicate level.number '#').length = ' ' :: rest := List.drop_left
  rw [Start.heading?, hsigns, hdrop]
  cases level <;> rfl

theorem find?_heading (level : Level) {rest t : Chars} (text : Start.headingText (' ' :: rest) = t)
    (context : Context) (nests : Bool) (column : Nat) :
    Start.find? context nests
      ⟨column, List.replicate level.number '#' ++ ' ' :: rest⟩ = some (.heading level t) := by
  obtain ⟨cs, hcs⟩ : ∃ cs, List.replicate level.number '#' ++ ' ' :: rest = '#' :: cs := by
    cases level <;> exact ⟨_, rfl⟩
  have hheading := heading?_of_signs level rest
  rw [hcs, text] at hheading
  rw [hcs, Start.find?, isIndented_of_head rfl, quoteRest?_of_head rfl (by decide),
    content_of_head rfl, hheading]
  simp

theorem advance_idle_heading (level : Level) {rest t : Chars}
    (text : Start.headingText (' ' :: rest) = t) (o : Outlook) (column : Nat) :
    Tip.idle.advance levels o ⟨column, List.replicate level.number '#' ++ ' ' :: rest⟩ =
      .leaf (.heading level t) := by
  have hfind := find?_heading level text .free (decide (0 < levels)) column
  obtain ⟨cs, hcs⟩ : ∃ cs, List.replicate level.number '#' ++ ' ' :: rest = '#' :: cs := by
    cases level <;> exact ⟨_, rfl⟩
  rw [hcs] at hfind ⊢
  rw [advance_idle_of_find? rfl hfind, Tip.start]

/-- The line of a heading is read as a heading of what its text gives. -/
theorem readsApart_heading {rest t : Chars} {ns : List Node} (level : Level)
    (text : Start.headingText (' ' :: rest) = t) (nonempty : t ≠ [])
    (gives : ∀ ds, Gives ns (Token.eventsOf (Inline.tokens ds t))) :
    ReadsApart levels [List.replicate level.number '#' ++ ' ' :: rest]
    [.branch (.heading level) none ns] := by
  refine readsApart_leaf (b := .heading level t) (advance_idle_heading level text) fun ds => ?_
  have hsome : t.isEmpty = false := by simpa using nonempty
  rw [Reader.tokensIn, Reader.token, Reader.headingContent, hsome]
  exact (gives_heading level (gives ds)).token

theorem readsApart_heading_words {t : String} (words : IsWords t.toList) (level : Level) :
    ReadsApart levels [List.replicate level.number '#' ++ ' ' :: t.toList]
      [.branch (.heading level) none [.leaf (.text t) none]] := by
  obtain ⟨c, cs, hcons, _⟩ := words.head
  refine readsApart_heading level (headingText_words words) (by simp [hcons]) fun ds => ?_
  have prose : IsProse [t] := ⟨by simp, by simpa using words⟩
  have htokens := tokens_lines ds prose.some prose.words
  rw [lineTexts, List.map_singleton, Text.unlines_singleton] at htokens
  have htext := gives_text t
  rw [words.decoded_eq] at htext
  rw [htokens]
  exact htext.token

theorem le_longestRun (current : Nat) (s : Chars) : current ≤ longestRun current s := by
  induction s generalizing current with
  | nil => exact Nat.le_refl current
  | cons c s ih =>
    rw [longestRun]
    split
    · exact (Nat.le_succ current).trans (ih (current + 1))
    · exact Nat.le_max_left ..

theorem longestRun_mono {m n : Nat} (h : m ≤ n) (s : Chars) : longestRun m s ≤ longestRun n s := by
  induction s generalizing m n with
  | nil => exact h
  | cons c s ih =>
    rw [longestRun, longestRun]
    split
    · exact ih (Nat.succ_le_succ h)
    · exact max_le_max h (Nat.le_refl _)

theorem longestRun_suffix (current : Nat) (a s : Chars) :
    longestRun 0 s ≤ longestRun current (a ++ s) := by
  induction a generalizing current with
  | nil => exact longestRun_mono (Nat.zero_le current) s
  | cons c a ih =>
    rw [List.cons_append, longestRun]
    split
    · exact ih (current + 1)
    · exact (ih 0).trans (Nat.le_max_right ..)

theorem longestRun_replicate (m current : Nat) (s : Chars) :
    longestRun current (List.replicate m '\x60' ++ s) = longestRun (current + m) s := by
  induction m generalizing current with
  | zero => rfl
  | succ m ih =>
    rw [List.replicate_succ, List.cons_append, longestRun, beq_self_eq_true, if_pos rfl, ih,
      Nat.add_assoc, Nat.add_comm 1]

/-- No run of backticks in a text is longer than the longest. -/
theorem length_le_longestRun {m : Nat} (h : List.replicate m '\x60' <:+: s) :
    m ≤ longestRun 0 s := by
  obtain ⟨a, b, rfl⟩ := h
  have hrun := longestRun_suffix 0 a (List.replicate m '\x60' ++ b)
  rw [longestRun_replicate, ← List.append_assoc] at hrun
  have hlong := le_longestRun (0 + m) b
  omega

/-- A fence of so many backticks. -/
def plainFence (n : Nat) : Fence := ⟨'\x60', n, 0, []⟩

theorem closes_of_infix {n : Nat} {l : Chars} (short : longestRun 0 s < n)
    (h : l <:+: s) (info : Chars) (column : Nat) :
    Start.closes { plainFence n with info } ⟨column, l⟩ = false := by
  have hrun : (l.dropWhile isSpace).takeWhile (· == '\x60') =
      List.replicate ((l.dropWhile isSpace).takeWhile (· == '\x60')).length '\x60' :=
    List.eq_replicate_of_mem fun c hc => by simpa using List.mem_takeWhile_imp hc
  have hwithin := ((List.takeWhile_prefix (· == '\x60')).isInfix.trans
    (List.dropWhile_suffix isSpace).isInfix).trans h
  rw [hrun] at hwithin
  have hle := length_le_longestRun hwithin
  have hfew : ¬ n ≤ ((l.dropWhile isSpace).takeWhile (· == '\x60')).length := by omega
  simp [Start.closes, plainFence, Line.content, hfew]

theorem takeWhile_fence (n : Nat) : (Writer.fence n).takeWhile (· == '\x60') = Writer.fence n :=
  List.takeWhile_eq_self_iff.mpr fun c hc => by simp [List.eq_of_mem_replicate hc]

variable {n : Nat}

theorem fence_eq_cons (long : 3 ≤ n) : ∃ cs, Writer.fence n = '\x60' :: cs := by
  obtain ⟨m, rfl⟩ := Nat.exists_eq_add_of_le' long
  exact ⟨_, rfl⟩

theorem closes_fence (long : 3 ≤ n) (info : Chars) (column : Nat) :
    Start.closes { plainFence n with info } ⟨column, Writer.fence n⟩ := by
  obtain ⟨cs, hcs⟩ := fence_eq_cons long
  have hindented : (Line.mk column (Writer.fence n)).isIndented = false := by
    rw [hcs, isIndented_of_head rfl]
  have hcontent : (Line.mk column (Writer.fence n)).content = Writer.fence n := by
    rw [hcs, content_of_head rfl]
  have hlength : (Writer.fence n).length = n := List.length_replicate
  rw [Start.closes, hindented, hcontent, plainFence, takeWhile_fence, List.drop_length, hlength]
  simp

/-- A fence with letters and digits behind it opens code with that info. -/
theorem find?_fence {info : Chars} (long : 3 ≤ n) (word : ∀ c ∈ info, c.isAlphanum)
    (context : Context) (nests : Bool) (column : Nat) :
    Start.find? context nests ⟨column, Writer.fence n ++ info⟩ =
      some (.fence { plainFence n with info }) := by
  have hbacktick : '\x60' ∉ info := fun hmem => absurd (word _ hmem) (by decide)
  have hfence : Start.fence? 0 (Writer.fence n ++ info) = some { plainFence n with info } := by
    have hlength : (Writer.fence n).length = n := List.length_replicate
    have htake : (Writer.fence n ++ info).takeWhile (· == '\x60') = Writer.fence n := by
      rw [List.takeWhile_append_of_pos fun c hc => by simp [List.eq_of_mem_replicate hc]]
      cases info with
      | nil => exact List.append_nil _
      | cons c info =>
        have hc : c ≠ '\x60' := fun hc => hbacktick (hc ▸ List.mem_cons_self)
        rw [List.takeWhile_cons_of_neg (by simp [hc]), List.append_nil]
    have hdrop : (Writer.fence n ++ info).drop n = info := List.drop_left' hlength
    have htrim : trimSpaces info = info := by
      cases info with
      | nil => rfl
      | cons c info =>
        have hbounded := Text.bounded_of_forall (p := isSpace) (List.cons_ne_nil c info)
          fun d hd => isSpace_of_isAlphanum (word d hd)
        rw [trimSpaces, hbounded.dropWhile, hbounded.dropEndWhile]
    obtain ⟨cs, hcs⟩ := fence_eq_cons long
    rw [hcs] at htake hlength hdrop ⊢
    rw [List.cons_append] at htake hdrop ⊢
    rw [Start.fence?, htake, hlength, hdrop, htrim, if_neg (by omega)]
    simp [hbacktick, plainFence]
  obtain ⟨cs, hcs⟩ := fence_eq_cons long
  rw [hcs, List.cons_append] at hfence ⊢
  rw [Start.find?, isIndented_of_head rfl, quoteRest?_of_head rfl (by decide), content_of_head rfl,
    heading?_of_head (by decide), indent_of_head rfl, hfence]
  simp

theorem dropIndent_zero (l : Line) : l.dropIndent 0 = l := by
  obtain ⟨column, text⟩ := l
  cases text <;> rfl

/-- Lines of code are gathered until a line closes the fence. -/
theorem reads_fenced {f : Fence} {ls : List Chars} (flush : f.indent = 0)
    (code : ∀ l ∈ ls, ∀ column, Start.closes f ⟨column, l⟩ = false) (lines : List Chars) :
    Reads levels ⟨[], .fenced f lines⟩ ls ⟨[], .fenced f (lines ++ ls)⟩ := by
  induction ls generalizing lines with
  | nil =>
    rw [List.append_nil]
    exact .nil _
  | cons l ls ih =>
    obtain ⟨hl, hls⟩ := List.forall_mem_cons.mp code
    have h := ih hls (lines ++ [l])
    rw [List.append_assoc] at h
    have hadvance : ∀ o column, (Tip.fenced f lines).advance levels o ⟨column, l⟩ =
        .keep (.fenced f (lines ++ [l])) := by
      intro o column
      rw [Tip.advance, hl, flush, dropIndent_zero]
      rfl
    exact .cons hadvance h

theorem dropEscapes_cons {c : Char} (h : c ≠ '\\') (s : Chars) :
    dropEscapes (c :: s) = c :: dropEscapes s := by
  rw [dropEscapes]
  rintro - - rfl
  exact absurd rfl h

theorem dropEscapes_of_not_mem (h : '\\' ∉ s) : dropEscapes s = s := by
  induction s with
  | nil => rfl
  | cons c s ih =>
    rw [List.mem_cons, not_or] at h
    rw [dropEscapes_cons (Ne.symm h.1), ih h.2]

/-- Info that is a word is read as it stands. -/
theorem codeInfo_of_word {info : Option String}
    (word : ∀ i ∈ info, i ≠ "" ∧ ∀ c ∈ i.toList, c.isAlphanum) :
    codeInfo (info.getD "") = info := by
  cases info with
  | none => rfl
  | some i =>
    obtain ⟨hsome, hsigns⟩ := word i rfl
    have hbounded :=
      Text.bounded_of_forall (by simpa using hsome) fun c hc => isBlank_of_isAlphanum (hsigns c hc)
    have htrim : Text.trimString i = i := by
      rw [Text.trimString, hbounded.trim, String.ofList_toList]
    rw [Option.getD_some, codeInfo, htrim, if_neg (by simpa using hsome)]

/-- Code between fences that are longer than all runs of backticks in it. -/
theorem reads_code {t : String} {info : Option String}
    (ends : t.toList = [] ∨ t.toList.getLast? = some '\n')
    (word : ∀ i ∈ info, i ≠ "" ∧ ∀ c ∈ i.toList, c.isAlphanum) (long : 3 ≤ n)
    (short : longestRun 0 t.toList < n) :
    Reads levels ⟨[], .idle⟩
      ((Writer.fence n ++ (info.getD "").toList) :: Writer.codeLines t.toList ++ [Writer.fence n])
        ⟨[.code (some (info.getD "").toList) t.toList], .idle⟩ := by
  have hword : ∀ c ∈ (info.getD "").toList, c.isAlphanum := by
    cases info with
    | none => simp
    | some i => exact (word i rfl).2
  have hplain : dropEscapes (info.getD "").toList = (info.getD "").toList :=
    dropEscapes_of_not_mem fun hmem => absurd (hword _ hmem) (by decide)
  have hopen : ∀ o column,
      Tip.idle.advance levels o ⟨column, Writer.fence n ++ (info.getD "").toList⟩ =
      .keep (.fenced { plainFence n with info := (info.getD "").toList } []) := by
    intro o column
    have hfind := find?_fence long hword .free (decide (0 < levels)) column
    obtain ⟨cs, hcs⟩ := fence_eq_cons long
    rw [hcs, List.cons_append] at hfind ⊢
    rw [advance_idle_of_find? rfl hfind, Tip.start]
  have hlines : Reads levels ⟨[], .fenced { plainFence n with info := (info.getD "").toList } []⟩
      (Writer.codeLines t.toList) ⟨[],
        .fenced { plainFence n with info := (info.getD "").toList } (Writer.codeLines t.toList)⟩ :=
    reads_fenced rfl (fun l hl => closes_of_infix short (Writer.infix_of_mem_codeLines hl).2 _) []
  have hclose : ∀ o column, (Tip.fenced { plainFence n with info := (info.getD "").toList }
      (Writer.codeLines t.toList)).advance levels o ⟨column, Writer.fence n⟩ =
        .leaf (.code (some (info.getD "").toList) t.toList) := by
    intro o column
    rw [Tip.advance, closes_fence long, if_pos rfl, Tip.fencedBlock, hplain, Tip.endLines,
      Writer.flatMap_codeLines ends]
  exact .cons hopen (hlines.append (.cons hclose (.nil _)))

theorem readsApart_fenced {t : String} {info : Option String}
    (ends : t.toList = [] ∨ t.toList.getLast? = some '\n')
    (word : ∀ i ∈ info, i ≠ "" ∧ ∀ c ∈ i.toList, c.isAlphanum)
    (long : 3 ≤ n) (short : longestRun 0 t.toList < n) :
    ReadsApart levels
      ((Writer.fence n ++ (info.getD "").toList) :: Writer.codeLines t.toList ++ [Writer.fence n])
        [.leaf (.codeBlock t info none) none] := by
  refine ⟨_, .idle, reads_code ends word long short, fun ds => ?_, endsAtBlank_idle levels⟩
  have htoken :
      Reader.tokensIn ds false ([.code (some (info.getD "").toList) t.toList] ++ Tip.idle.close) =
      [.codeBlock (info.getD "") t] := by
    change [Token.codeBlock (String.ofList (info.getD "").toList) (String.ofList t.toList)] = _
    rw [String.ofList_toList, String.ofList_toList]
  have hgives := gives_code (info.getD "") t
  rw [codeInfo_of_word word] at hgives
  rw [htoken]
  exact hgives.token

theorem readsApart_code {t : String} (code : IsCode t.toList) {k : Nat} (long : 3 ≤ k) :
    ReadsApart levels (Writer.fence (Writer.fenceLength k t.toList) :: Writer.codeLines t.toList ++
      [Writer.fence (Writer.fenceLength k t.toList)]) [.leaf (.codeBlock t none none) none] := by
  have hreads : ReadsApart levels _ [.leaf (.codeBlock t none none) none] :=
    readsApart_fenced code.ends (by simp)
      (long.trans (Nat.le_max_left k (longestRun 0 t.toList + 1)))
      (Nat.lt_of_succ_le (Nat.le_max_right ..))
  rwa [Option.getD_none, String.toList_empty, List.append_nil] at hreads

end Canonmark.Markdown
