import Canonmark.Proofs.Markdown.PlainRoundTrip
import Canonmark.Proofs.Markdown.Targets

/-! Links and images are read back as they were written, but for character references in their
titles, which are decoded. -/
namespace Canonmark.Markdown

variable {r : Reference} {label dest title rest : Chars}

/-- What a link or an image begins with. -/
def opening : Reference → Chars
  | .link => ['[']
  | .image => ['!', '[']

/-- A link or an image as it is written. -/
def referenceText (r : Reference) (label dest title : Chars) : Chars :=
  opening r ++ label ++ ']' :: '(' :: linkTarget dest title ++ [')']

/-- The piece that a label and a target are read as. -/
def labelled (r : Reference) (label dest title : Chars) : Piece :=
  .reference r ⟨dest, title⟩ [.plain label]

theorem partsOf_label (inLink : Bool) (label : Chars) :
    Piece.partsOf inLink [.plain label] = [.plain label] := by
  cases inLink <;> rfl

theorem part_labelled (words : IsWords label) :
    Piece.part false (labelled r label dest title) =
      .token (.reference r (.str (String.ofList dest)) (.str (String.ofList title))
        [.text (String.ofList label)]) := by
  have hplain : ∀ p ∈ [Part.plain label], Emphasis.holdsSigns p = false := by
    have hsigns : ∀ c ∈ label, Emphasis.isSign c = false := by
      intro c hc
      have hne : ∀ sign : Char, sign.isAlphanum = false ∧ sign ≠ ' ' → c ≠ sign :=
        fun sign hsign heq => words.not_mem sign hsign (heq ▸ hc)
      simp [Emphasis.isSign, hne]
    simpa [Emphasis.holdsSigns] using hsigns
  rw [labelled, Piece.part, partsOf_label, Emphasis.tokensOf_of_plain hplain]
  rfl

theorem isTooDeep_labelled (words : IsWords label) :
    (labelled r label dest title).isTooDeep = false := by
  rw [Piece.isTooDeep, part_labelled words]
  rfl

namespace Inline

variable {bs : List Bracket} {ps : List Piece}

/-- A bracket after which a target follows is a link or an image. A link closes no bracket of a link
around it. -/
theorem closeBracket_reference (ds : List Definition)
    (destination : IsDestination dest) (title source rest : Chars)
    (shallow : (Piece.reference r ⟨dest, title⟩ ps.reverse).isTooDeep = false)
    (outside : r = .link → ∀ b ∈ bs, b.kind = .image) (base : List Piece) :
    closeBracket ds ('(' :: (linkTarget dest title ++ ')' :: rest))
        { brackets := { kind := r, source, pieces := ps } :: bs, base } =
      (({ brackets := bs, base } : Reading).push (.reference r ⟨dest, title⟩ ps.reverse),
        rest) := by
  have htarget : ∀ text, target? ds text ('(' :: (linkTarget dest title ++ ')' :: rest)) =
      some (⟨dest, title⟩, rest) := by
    intro text
    rw [target?, inParentheses?_linkTarget destination]
  have hclose : close? ds ('(' :: (linkTarget dest title ++ ')' :: rest))
      { kind := r, source, pieces := ps } = some (.reference r ⟨dest, title⟩ ps.reverse, rest) := by
    rw [close?, if_pos rfl, htarget]
    change (if (Piece.reference r ⟨dest, title⟩ ps.reverse).isTooDeep then _ else _) = _
    rw [shallow]
    rfl
  rw [closeBracket]
  dsimp only
  rw [hclose]
  cases r with
  | image => rfl
  | link =>
    have haround : bs.map Bracket.deactivate = bs := by
      refine (List.map_congr_left fun b hb => ?_).trans (List.map_id bs)
      rw [Bracket.deactivate, outside rfl b hb]
      rfl
    dsimp only
    rw [haround]

/-- A bracket is opened. -/
theorem readFrom_opening (ds : List Definition) (r : Reference) (source : Chars) (st : Reading) :
    readFrom ds 0 (opening r ++ source) st =
      readFrom ds 0 source { st with brackets := { kind := r, source } :: st.brackets } := by
  cases r with
  | link => exact readFrom_of_step (c := '[') rfl (List.suffix_refl source)
  | image => exact readFrom_of_step (c := '!') rfl (List.suffix_cons '[' source)

/-- A link or an image is read as one piece, if its label is read as its content. -/
theorem readFrom_referenceText {ds : List Definition}
    (destination : IsDestination dest) {title : Chars} {st : Reading}
    (shallow : (Piece.reference r ⟨dest, title⟩ ps.reverse).isTooDeep = false)
    (outside : r = .link → ∀ b ∈ st.brackets, b.kind = .image)
    (reads : ∀ source after, readFrom ds 0 (label ++ ']' :: after)
        { st with brackets := { kind := r, source } :: st.brackets } =
      readFrom ds 0 (']' :: after)
      { st with brackets := { kind := r, source, pieces := ps } :: st.brackets })
    (rest : Chars) :
    readFrom ds 0 (referenceText r label dest title ++ rest) st =
      readFrom ds 0 rest (st.push (.reference r ⟨dest, title⟩ ps.reverse)) := by
  have hsplit : referenceText r label dest title ++ rest =
      opening r ++ (label ++ ']' :: '(' :: (linkTarget dest title ++ ')' :: rest)) := by
    simp [referenceText]
  have hstep : ∀ source, step ds ']' ('(' :: (linkTarget dest title ++ ')' :: rest))
      { st with brackets := { kind := r, source, pieces := ps } :: st.brackets } =
        (st.push (.reference r ⟨dest, title⟩ ps.reverse), rest) :=
    fun source => closeBracket_reference ds destination title source rest shallow outside st.base
  have hleft : rest <:+ '(' :: (linkTarget dest title ++ ')' :: rest) :=
    ⟨'(' :: (linkTarget dest title ++ [')']), by simp⟩
  rw [hsplit, readFrom_opening, reads, readFrom_of_step (hstep _) hleft]

/-- A label of words is read as its text. -/
theorem readFrom_label (ds : List Definition) (words : IsWords label) (source after : Chars)
    (bs : List Bracket) (base : List Piece) :
    readFrom ds 0 (label ++ ']' :: after)
      { brackets := { kind := r, source } :: bs, base } =
        readFrom ds 0 (']' :: after)
        { brackets := { kind := r, source, pieces := [.plain label] } :: bs, base } := by
  have hsome : label ≠ [] := by
    obtain ⟨c, cs, hcons, -⟩ := words.head
    simp [hcons]
  exact readFrom_plain_append hsome words.isOrdinary rfl (by decide)

/-- A link or an image is read as one token. -/
theorem tokens_referenceText (ds : List Definition) (words : IsWords label)
    (destination : IsDestination dest) (title : Chars) :
    tokens ds (referenceText r label dest title) =
      [.reference r (.str (String.ofList dest)) (.str (String.ofList title))
        [.text (String.ofList label)]] := by
  have hread : readFrom ds 0 (referenceText r label dest title ++ []) {} =
      { base := [labelled r label dest title] } := by
    have hshallow :
        (Piece.reference r ⟨dest, title⟩ [Piece.plain label].reverse).isTooDeep = false :=
      isTooDeep_labelled words
    rw [readFrom_referenceText destination hshallow (by simp) fun source after =>
      readFrom_label ds words source after [] []]
    rfl
  rw [List.append_nil] at hread
  rw [tokens, pieces_of_readFrom hread, List.reverse_singleton, Piece.tokensOf, Piece.partsOf,
    part_labelled words]
  rfl

end Inline

theorem bracketed?_words (words : IsWords label) (rest : Chars) :
    Target.bracketed? (label ++ ']' :: rest) = some (label, rest) := by
  have hsigns : ∀ c ∈ label, c ≠ '\\' ∧ c ≠ ']' ∧ c ≠ '[' := by
    intro c hc
    have hne : ∀ sign : Char, sign.isAlphanum = false ∧ sign ≠ ' ' → c ≠ sign :=
      fun sign hsign heq => words.not_mem sign hsign (heq ▸ hc)
    exact ⟨hne _ (by decide), hne _ (by decide), hne _ (by decide)⟩
  clear words
  induction label with
  | nil => rfl
  | cons c label ih =>
    obtain ⟨⟨hescape, hclose, hopen⟩, hlabel⟩ := List.forall_mem_cons.mp hsigns
    rw [List.cons_append, Target.bracketed?, ih hlabel]
    · simp [hclose, hopen]
    · rintro - - rfl
      exact absurd rfl hescape

/-- A label with a parenthesis after it defines nothing. -/
theorem read?_of_parenthesis (words : IsWords label) (rest : Chars) :
    Definition.read? ('[' :: (label ++ ']' :: '(' :: rest)) = none := by
  rw [Definition.read?, Target.label?, bracketed?_words words, Option.bind_some]
  dsimp only
  split <;> rfl

theorem find?_referenceText {c : Char} (hc : c = '[' ∨ c = '!') (cs : Chars) (context : Context)
    (nests : Bool) (column : Nat) : Start.find? context nests ⟨column, c :: cs⟩ = none := by
  have hspace : isSpace c = false := by obtain rfl | rfl := hc <;> rfl
  have hsigns : ∀ sign ∈ ['#', '>', '<', '*', '-', '_', '+', '~', '\x60'], c ≠ sign := by
    obtain rfl | rfl := hc <;> simp
  have hdigit : c.isDigit = false := by obtain rfl | rfl := hc <;> rfl
  have hitem : Start.item? ⟨column, c :: cs⟩ = none := by
    rw [Start.item?, atContent_of_head hspace,
      marker?_of_head ⟨hsigns '-' (by simp), hsigns '+' (by simp), hsigns '*' (by simp)⟩ hdigit]
    rfl
  refine find?_of_head hspace (fun sign hsign => hsigns sign ?_)
    (fence?_of_head ⟨hsigns '~' (by simp), hsigns '\x60' (by simp)⟩ 0) hitem context nests
  simp only [List.mem_cons, List.not_mem_nil, or_false] at hsign ⊢
  tauto

/-- A link or an image begins a paragraph. -/
theorem advance_idle_referenceText {levels : Nat} (words : IsWords label)
    (dest title : Chars) (o : Outlook) (column : Nat) :
    Tip.idle.advance levels o ⟨column, referenceText r label dest title⟩ =
      .keep (.paragraph [referenceText r label dest title]) := by
  cases r with
  | image =>
    exact advance_idle_of_none rfl (by decide) (find?_referenceText (.inr rfl) _ _ _ column) o
  | link =>
    have hlink : referenceText .link label dest title =
        '[' :: (label ++ ']' :: '(' :: (linkTarget dest title ++ [')'])) := by
      simp [referenceText, opening]
    rw [hlink, Tip.advance, Tip.fresh, Tip.freshBy, isBlank_of_head rfl,
      find?_referenceText (.inl rfl)]
    simp only [Bool.false_eq_true, if_false]
    rw [Tip.freshText, content_of_head rfl, Tip.endLines, List.flatMap_cons, List.cons_append,
      List.append_assoc, List.cons_append]
    simp [read?_of_parenthesis words]

/-- A paragraph of a link or an image with a label. -/
def referenceParagraph (r : Reference) (dest title label : String) : Node :=
  .branch .paragraph none [.branch (r.container dest title) none [.leaf (.text label) none]]

theorem isFramed_referenceText (words : IsWords label)
    (destination : IsDestination dest) (blanks : ∀ c ∈ title, Text.isBlank c → c = ' ') :
    IsFramed [referenceText r label dest title] := by
  have hblanks : ∀ c ∈ referenceText r label dest title, Text.isBlank c → c = ' ' := by
    have hopening : ∀ c ∈ opening r, Text.isBlank c → c = ' ' := by
      cases r <;> simp [opening, Text.isBlank]
    have hlabel : ∀ c ∈ label, Text.isBlank c → c = ' ' := fun c hc hblank =>
      (words.signs c hc).resolve_left fun halnum => by simp [isBlank_of_isAlphanum halnum] at hblank
    rw [referenceText]
    simp only [List.forall_mem_append, List.forall_mem_cons]
    exact ⟨⟨⟨hopening, hlabel⟩, by simp [Text.isBlank], by simp [Text.isBlank],
      blanks_linkTarget destination blanks⟩, by simp [Text.isBlank], by simp⟩
  have hbreak : ∀ c, Text.isBlank c → c ≠ ' ' → c ∉ referenceText r label dest title :=
    fun c hblank hother hmem => hother (hblanks c hmem hblank)
  have hlast : (referenceText r label dest title).getLast? = some ')' := List.getLast?_concat
  exact isFramed_singleton ⟨hbreak '\n' rfl (by decide), hbreak '\r' rfl (by decide)⟩
    ⟨by cases r <;> exact ⟨_, rfl, rfl⟩, ')', hlast, rfl⟩

theorem readsApart_referenceText {levels : Nat} {label dest title : String}
    (words : IsWords label.toList) (destination : IsDestination dest.toList)
    (blanks : ∀ c ∈ title.toList, Text.isBlank c → c = ' ') :
    ReadsApart levels [referenceText r label.toList dest.toList title.toList]
      [referenceParagraph r dest (Token.decoded title) label] := by
  refine readsApart_line (isFramed_referenceText words destination blanks)
    (advance_idle_referenceText words _ _) fun ds => ?_
  have htext := gives_text label
  rw [words.decoded_eq] at htext
  rw [Inline.tokens_referenceText ds words destination, String.ofList_toList, String.ofList_toList,
    String.ofList_toList]
  exact (gives_reference r dest title htext.token).token

theorem writes_referenceText {style : Style} {dest title label : String}
    (words : IsWords label.toList) {l : Layout} (flush : l.out = []) :
    Writer.Writes
      (Writer.node style (.branch (r.container dest title) none [.leaf (.text label) none]))
        (referenceText r label.toList dest.toList title.toList) l := by
  have hinlines : Writer.inlines style [.leaf (.text label) none] l = .ok label.toList l :=
    Writer.inlines_words words l
  cases r with
  | image =>
    rw [Reference.container, Writer.node]
    refine .after hinlines ?_
    have hemit := Writer.writes_emit (referenceText .image label.toList dest.toList title.toList) l
    simpa [referenceText, opening] using hemit
  | link =>
    have hguard : Writer.guardLink style l = .ok () l := by
      obtain ⟨out, indent, first, tight, markers⟩ := l
      cases flush
      rw [Writer.guardLink]
      split <;> rfl
    rw [Reference.container, Writer.node]
    refine .after hguard (.after hinlines ?_)
    have hemit := Writer.writes_emit (referenceText .link label.toList dest.toList title.toList) l
    simpa [referenceText, opening] using hemit

theorem isWritten_referenceParagraph {style : Style} (r : Reference)
    (dest title : String) {label : String} (words : IsWords label.toList) :
    Writer.IsWritten style (referenceParagraph r dest title label)
      [referenceText r label.toList dest.toList title.toList] :=
  Writer.isWritten_single (by cases r <;> rfl) fun _ flush => writes_referenceText words flush

theorem staysApart_referenceParagraph (r : Reference) (dest title label : String) :
    StaysApart (referenceParagraph r dest title label) :=
  staysApart_branch (by cases r <;> rfl) (by simp) (by simp) (by simp [Container.kind])

/-- A text in which each reference stands for itself. -/
def KeepsAllReferences (s : Chars) : Prop :=
  ∀ before rest body, s = before ++ '&' :: rest → Text.referenceBody? rest = some body →
    Text.referenceText body = '&' :: body

theorem KeepsAllReferences.decoded_eq {text : String} (h : KeepsAllReferences text.toList) :
    Token.decoded text = text := by
  rw [Token.decoded, Text.decodeReferences_eq_self h, String.ofList_toList]

/-- The title of a link or an image is read with its references decoded. -/
theorem read_written_reference {options : Option Options} {overrides : Members} {style : Style}
    (hstyle : ComesTo options overrides style) (r : Reference) {dest title label : String}
    (destination : IsDestination dest.toList)
    (blanks : ∀ c ∈ title.toList, Text.isBlank c → c = ' ') (words : IsWords label.toList) :
    (do let written ← toMarkdown (.tree (documentOf [referenceParagraph r dest title label]))
          options overrides
        fromMarkdown (.text written) none []) =
      .ok (documentOf [referenceParagraph r dest (Token.decoded title) label]) := by
  have hframed : IsFramed [referenceText r label.toList dest.toList title.toList] :=
    isFramed_referenceText words destination blanks
  have hstacked : stacked [[]] [[referenceText r label.toList dest.toList title.toList]] =
      [referenceText r label.toList dest.toList title.toList] := by
    rw [stacked, List.flatMap_nil, List.append_nil]
  have happart : ∀ n ∈ [referenceParagraph r dest title label], StaysApart n := by
    simpa using staysApart_referenceParagraph r dest title label
  have hwrite : write style _ = _ :=
    write_of_written happart (.cons (isWritten_referenceParagraph r dest title words) .nil)
      (.inr (hstacked ▸ hframed))
  have hreads : ReadsApart maxDepth [referenceText r label.toList dest.toList title.toList]
      [referenceParagraph r dest (Token.decoded title) label] :=
    readsApart_referenceText words destination blanks
  have hread := fromMarkdown_of_readsAs hreads.readsAs (.inr hframed)
  rw [hstacked] at hwrite
  generalize String.ofList (Text.unlines [referenceText r label.toList dest.toList title.toList]) =
    written at hwrite hread
  rw [toMarkdown_of_write hstyle hwrite]
  exact hread

/-- A link or an image is read back as it was written, but for the references in its title, which
are decoded. So the title is kept if each of its references stands for itself. -/
theorem fromMarkdown_toMarkdown_reference {options : Option Options} {overrides : Members}
    {style : Style} (hstyle : ComesTo options overrides style) (r : Reference)
    {dest title label : String} (some : dest.toList ≠ [])
    (signs : ∀ c ∈ dest.toList, c.isAlphanum)
    (blanks : ∀ c ∈ title.toList, Text.isBlank c → c = ' ') (words : IsWords label.toList) :
    ∃ read : String, (do
        let written ← toMarkdown (.tree (documentOf [referenceParagraph r dest title label]))
          options overrides
        fromMarkdown (.text written) none []) =
          .ok (documentOf [referenceParagraph r dest read label]) ∧
      read = Token.decoded title ∧ (KeepsAllReferences title.toList → read = title) :=
  ⟨Token.decoded title, read_written_reference hstyle r (isDestination_alphanum some signs) blanks
    words, rfl, KeepsAllReferences.decoded_eq⟩

/-- A title with quotation marks, backslashes and ampersands. -/
def quotedTitle : String := "\\ \"a\" \\\" & &b\" \\&"

theorem fromMarkdown_toMarkdown_quotedTitle :
    ComesTo none [] {} ∧ "u1".toList ≠ [] ∧ (∀ c ∈ "u1".toList, c.isAlphanum) ∧
      (∀ c ∈ quotedTitle.toList, Text.isBlank c → c = ' ') ∧ IsWords "t".toList ∧
      (do let written ← toMarkdown
            (.tree (documentOf [referenceParagraph .image "u1" quotedTitle "t"])) none []
          fromMarkdown (.text written) none []) =
        .ok (documentOf [referenceParagraph .image "u1" quotedTitle "t"]) := by
  have hsome : "u1".toList ≠ [] := by decide
  have hsigns : ∀ c ∈ "u1".toList, c.isAlphanum := by simp [Char.isAlphanum]
  have hblanks : ∀ c ∈ quotedTitle.toList, Text.isBlank c → c = ' ' := by
    simp [quotedTitle, Text.isBlank]
  have hwords : IsWords "t".toList := .word (w := ['t']) (by simp) (by simp)
  have hdecoded : Token.decoded quotedTitle = quotedTitle := by decide +kernel
  obtain ⟨read, hread, rfl, -⟩ :=
    fromMarkdown_toMarkdown_reference comesTo_default .image hsome hsigns hblanks hwords
  rw [hdecoded] at hread
  exact ⟨comesTo_default, hsome, hsigns, hblanks, hwords, hread⟩

/-- The backslash before a reference in a title is dropped before the reference is decoded. -/
theorem fromMarkdown_toMarkdown_numberTitle :
    (do let written ← toMarkdown
          (.tree (documentOf [referenceParagraph .link "u" "&#65;" "t"])) none []
        fromMarkdown (.text written) none []) =
      .ok (documentOf [referenceParagraph .link "u" "A" "t"]) := by
  have hsome : "u".toList ≠ [] := by decide
  have hsigns : ∀ c ∈ "u".toList, c.isAlphanum := by simp
  have hblanks : ∀ c ∈ "&#65;".toList, Text.isBlank c → c = ' ' := by simp [Text.isBlank]
  have hwords : IsWords "t".toList := .word (w := ['t']) (by simp) (by simp)
  have hdecoded : Token.decoded "&#65;" = "A" := by decide +kernel
  have hread := read_written_reference comesTo_default .link (isDestination_alphanum hsome hsigns)
    hblanks hwords
  rwa [hdecoded] at hread

end Canonmark.Markdown
