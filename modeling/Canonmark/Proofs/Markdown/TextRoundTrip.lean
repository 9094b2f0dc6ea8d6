import Canonmark.Proofs.Markdown.PhraseTokens
import Canonmark.Proofs.Markdown.PlainRoundTrip

/-! Text is read back as it was written, but for a fence at its start and for some references beside
underscores. -/
namespace Canonmark.Markdown

variable {s : Chars}

/-- What is written for a text is read as texts that make it up. -/
theorem exists_texts (line : IsTextLine s) (keeps : HasWordUnderscore s → KeepsReferences s) :
    ∃ ts : List Chars, ts.flatten = s ∧ (∀ t ∈ ts, Text.decodeReferences t = t) ∧
      ∀ ds, Inline.tokens ds (escape s) = ts.map Emphasis.textToken := by
  have hsigns := map_sign_marks s
  have htexts := (areSound_marks s).exists_texts (by rwa [hsigns]) (by rwa [hsigns])
  rwa [hsigns, ← escape_eq] at htexts

/-- A paragraph of one text. -/
def textParagraph (ts : List String) : Node :=
  .branch .paragraph none (ts.map fun t => .leaf (.text t) none)

theorem escape_cons_of_line (line : IsTextLine s) :
    ∃ d ds, escape s = d :: ds ∧ Text.isBlank d = false ∧ d ≠ '[' := by
  obtain ⟨⟨c, hc, hblank⟩, -⟩ := line.bounded
  obtain ⟨cs, rfl⟩ := List.head?_eq_some_iff.mp hc
  obtain ⟨d, ds, hcons, hd, hother⟩ := exists_escape_cons c cs
  refine ⟨d, ds, hcons, ?_, hother '[' (by decide)⟩
  obtain rfl | rfl := hd
  · rfl
  · exact hblank

theorem mem_escape {c : Char} (h : c ∈ escape s) : c = '\\' ∨ c ∈ s := by
  rw [escape_eq] at h
  have hmem := mem_flatMap_text h
  rwa [map_sign_marks] at hmem

theorem blanks_escape (blanks : ∀ c ∈ s, Text.isBlank c → c = ' ') :
    ∀ c ∈ escape s, Text.isBlank c → c = ' ' := by
  intro c hc hblank
  obtain rfl | hc := mem_escape hc
  · cases hblank
  · exact blanks c hc hblank

theorem bounded_escape (h : Text.Bounded Text.isBlank s) :
    Text.Bounded Text.isBlank (escape s) := by
  rw [escape_eq]
  exact bounded_flatMap_text (by rwa [map_sign_marks])

theorem isFramed_escape (line : IsTextLine s) : IsFramed [escape s] := by
  have hbreak : ∀ c, Text.isBlank c → c ≠ ' ' → c ∉ escape s :=
    fun c hblank hother hmem => hother (blanks_escape line.blanks c hmem hblank)
  exact isFramed_singleton ⟨hbreak '\n' rfl (by decide), hbreak '\r' rfl (by decide)⟩
    (bounded_escape line.bounded)

theorem gives_texts (ts : List Chars) :
    Gives (ts.map fun t => .leaf (.text (String.ofList (Text.decodeReferences t))) none)
      (Token.eventsOf (ts.map Emphasis.textToken)) := by
  induction ts with
  | nil => exact gives_nil
  | cons t ts ih =>
    have hfirst := gives_text (String.ofList t)
    rw [Token.decoded, String.toList_ofList] at hfirst
    exact hfirst.token.eventsOf_append ih

/-- The line that is written for a text is read as a paragraph of texts. -/
theorem readsApart_text {levels : Nat} (line : IsTextLine s) (unfenced : ¬ ['~', '~', '~'] <+: s)
    {ts : List Chars} (tokens : ∀ ds, Inline.tokens ds (escape s) = ts.map Emphasis.textToken) :
    ReadsApart levels [escape s]
    [textParagraph (ts.map fun t => String.ofList (Text.decodeReferences t))] := by
  have hadvance : ∀ o column, Tip.idle.advance levels o ⟨column, escape s⟩ =
      .keep (.paragraph [escape s]) := by
    intro o column
    have hfind : Start.find? .free (decide (0 < levels)) ⟨column, escape s⟩ = none := by
      obtain ⟨⟨c, hc, hblank⟩, -⟩ := line.bounded
      obtain ⟨cs, rfl⟩ := List.head?_eq_some_iff.mp hc
      exact find?_escape (isSpace_of_not_isBlank hblank) unfenced _ _ column
    obtain ⟨d, ds, hcons, hd, hother⟩ := escape_cons_of_line line
    rw [hcons] at hfind ⊢
    exact advance_idle_of_none (isSpace_of_not_isBlank hd) hother hfind o
  refine readsApart_line (isFramed_escape line) hadvance fun ds => ?_
  rw [tokens, List.map_map]
  exact gives_texts ts

theorem writes_escaped {style : Style} (escaped : style.escape) (t : String) (l : Layout) :
    Writer.Writes (Writer.node style (.leaf (.text t) none)) (escape t.toList) l := by
  rw [Writer.node, Writer.leaf, Writer.plainText, if_pos escaped]
  exact Writer.writes_emit _ l

/-- A text is written with its signs escaped. -/
theorem inlines_text {style : Style} (escaped : style.escape) (t : String) (l : Layout) :
    Writer.inlines style [.leaf (.text t) none] l = .ok (escape t.toList) l :=
  Writer.inlines_singleton rfl (fun l _ => writes_escaped escaped t l) l

theorem isWritten_text {style : Style} (escaped : style.escape) (t : String) :
    Writer.IsWritten style (textParagraph [t]) [escape t.toList] :=
  Writer.isWritten_single rfl fun l _ => writes_escaped escaped t l

theorem staysApart_textParagraph (t : String) : StaysApart (textParagraph [t]) :=
  staysApart_branch rfl (by simp) (by simp) (by simp [Container.kind])

/-- A line of text is written with its signs escaped. -/
theorem write_text {style : Style} (escaped : style.escape) {text : String}
    (line : IsTextLine text.toList) :
    write style (documentOf [textParagraph [text]]) = .ok (String.ofList (escape text.toList)) := by
  have hstacked : stacked [[]] [[escape text.toList]] = [escape text.toList] := by
    rw [stacked, List.flatMap_nil, List.append_nil]
  have happart : ∀ n ∈ [textParagraph [text]], StaysApart n := by
    simpa using staysApart_textParagraph text
  have hwrite := write_of_written happart (.cons (isWritten_text escaped text) .nil)
    (.inr (hstacked ▸ isFramed_escape line))
  rwa [hstacked, Text.unlines_singleton] at hwrite

/-- What is written for a line of text is read as a paragraph of texts. -/
theorem read_text (line : IsTextLine s) (unfenced : ¬ ['~', '~', '~'] <+: s) {ts : List Chars}
    (tokens : ∀ ds, Inline.tokens ds (escape s) = ts.map Emphasis.textToken) :
    fromMarkdown (.text (String.ofList (escape s))) none [] =
      .ok
      (documentOf [textParagraph (ts.map fun t => String.ofList (Text.decodeReferences t))]) := by
  have hread := fromMarkdown_of_readsAs (readsApart_text line unfenced tokens).readsAs
    (.inr (isFramed_escape line))
  rwa [Text.unlines_singleton] at hread

theorem exists_read_text {text : String} (line : IsTextLine text.toList)
    (unfenced : ¬ ['~', '~', '~'] <+: text.toList)
    (keeps : HasWordUnderscore text.toList → KeepsReferences text.toList) :
    ∃ ts : List String, String.join ts = text ∧
      fromMarkdown (.text (String.ofList (escape text.toList))) none [] =
      .ok (documentOf [textParagraph ts]) := by
  obtain ⟨ts, hflatten, hdecoded, htokens⟩ := exists_texts line keeps
  have hsame : (ts.map fun t => String.ofList (Text.decodeReferences t)) = ts.map String.ofList :=
    List.map_congr_left fun t ht => by rw [hdecoded t ht]
  refine ⟨ts.map String.ofList, ?_, by rw [read_text line unfenced htokens, hsame]⟩
  rw [← String.toList_inj, String.toList_join, List.flatMap_map, ← hflatten]
  simp [List.flatMap_def]

/-- A line of text is read back as texts that make it up. It must not begin with a fence, and if it
holds an underscore within a word, each of its references that hold special signs must stand for
itself. -/
theorem fromMarkdown_toMarkdown_text {options : Option Options} {overrides : Members}
    {style : Style} (hstyle : ComesTo options overrides style) (escaped : style.escape)
    {text : String} (line : IsTextLine text.toList)
    (unfenced : ¬ ['~', '~', '~'] <+: text.toList)
    (keeps : HasWordUnderscore text.toList → KeepsReferences text.toList) :
    ∃ ts : List String, String.join ts = text ∧
      (do let written ← toMarkdown (.tree (documentOf [textParagraph [text]])) options overrides
          fromMarkdown (.text written) none []) = .ok (documentOf [textParagraph ts]) := by
  obtain ⟨ts, hjoin, hread⟩ := exists_read_text line unfenced keeps
  have hwrite := write_text escaped line
  generalize String.ofList (escape text.toList) = written at hwrite hread
  refine ⟨ts, hjoin, ?_⟩
  rw [toMarkdown_of_write hstyle hwrite]
  exact hread

/-- A text with a number at its start, emphasis, brackets, code and an underscore within a word. -/
def markedText : String := "1. snake_case *b* [c] \x60d\x60 _ <!"

theorem isTextLine_markedText : IsTextLine markedText.toList :=
  ⟨by simp [markedText, Text.isBlank], ⟨'1', rfl, rfl⟩, '!', rfl, rfl⟩

theorem fromMarkdown_toMarkdown_markedText :
    ComesTo none [] {} ∧ IsTextLine markedText.toList ∧ ¬ ['~', '~', '~'] <+: markedText.toList ∧
      (HasWordUnderscore markedText.toList → KeepsReferences markedText.toList) ∧
      ∃ ts : List String, String.join ts = markedText ∧
        (do let written ← toMarkdown (.tree (documentOf [textParagraph [markedText]])) none []
            fromMarkdown (.text written) none []) = .ok (documentOf [textParagraph ts]) := by
  have hkeeps : KeepsReferences markedText.toList := by
    intro before rest body hsplit
    have hmem : '&' ∈ markedText.toList := by simp [hsplit]
    exact absurd hmem (by decide)
  exact ⟨comesTo_default, isTextLine_markedText, by decide, fun _ => hkeeps,
    fromMarkdown_toMarkdown_text comesTo_default rfl isTextLine_markedText (by decide) fun _ =>
    hkeeps⟩

/-- Tildes at the start of a line are not escaped, so that they are read as a fence. -/
theorem fromMarkdown_toMarkdown_tildes :
    IsTextLine "~~~".toList ∧
      (do let written ← toMarkdown (.tree (documentOf [textParagraph ["~~~"]])) none []
          fromMarkdown (.text written) none []) =
        .ok (documentOf [.leaf (.codeBlock "" none none) none]) := by
  have line : IsTextLine "~~~".toList := ⟨by simp [Text.isBlank], ⟨'~', rfl, rfl⟩, '~', rfl, rfl⟩
  have hwrite : write {} (documentOf [textParagraph ["~~~"]]) = .ok "~~~" := by
    rw [write_text rfl line]
    rfl
  have hread : fromMarkdown (.text "~~~") none [] =
      .ok (documentOf [.leaf (.codeBlock "" none none) none]) :=
    rfl
  rw [toMarkdown_of_write comesTo_default hwrite]
  exact ⟨line, hread⟩

end Canonmark.Markdown
