import Canonmark.Proofs.Markdown.Delimiters
import Canonmark.Proofs.Markdown.HungLines
import Canonmark.Proofs.Markdown.SettledInline

/-! What is written for settled inline content, at every indentation. -/
namespace Canonmark.Markdown

open Emphasis (size)
open Phrase (allInks)
open Writer (newline)

variable {signed inLink : Bool} {depth : Nat} {n : Node} {ns : List Node} {style : Style}
    {w : Nat} {s t : Chars}

/-- A text each line of which but the first is indented, the empty ones as well. -/
def inset (w : Nat) (s : Chars) : Chars := s.flatMap fun c => if c = '\n' then newline w else [c]

theorem inset_append (w : Nat) (s t : Chars) : inset w (s ++ t) = inset w s ++ inset w t :=
  List.flatMap_append

theorem inset_cons {c : Char} (h : c ≠ '\n') (w : Nat) (s : Chars) :
    inset w (c :: s) = c :: inset w s := by
  rw [inset, List.flatMap_cons, if_neg h]
  rfl

theorem inset_of_not_mem (h : '\n' ∉ s) (w : Nat) : inset w s = s := by
  induction s with
  | nil => rfl
  | cons c s ih =>
    rw [List.mem_cons, not_or] at h
    rw [inset_cons (Ne.symm h.1), ih h.2]

/-- Lines none of which is empty are indented. -/
theorem inset_eq_unlines (some : ∀ l ∈ Text.lines s, l ≠ []) (w : Nat) :
    inset w s = Text.unlines (hung w (Text.lines s)) := by
  rw [← intercalate_newline some]
  clear some
  induction hn : s.length using Nat.strongRecOn generalizing s with
  | _ n ih =>
    obtain ⟨hs, hlines⟩ | ⟨line, rest, rfl, hline, hlines⟩ := Text.lines_cases s
    · rw [hlines, inset_of_not_mem hs, List.intercalate_singleton]
    · obtain ⟨l, ls, hcons⟩ := List.exists_cons_of_ne_nil (Text.lines_ne_nil rest)
      rw [hlines, hcons, List.intercalate_cons_cons, ← hcons,
        ← ih rest.length (by simp at hn; omega) rfl, inset_append, inset_of_not_mem hline,
        List.append_assoc]
      rfl

theorem bounded_inset (h : Text.Bounded Text.isBlank s) (w : Nat) :
    Text.Bounded Text.isBlank (inset w s) := by
  have hother : ∀ c, Text.isBlank c = false → c ≠ '\n' := by
    rintro c hc rfl
    cases hc
  obtain ⟨⟨c, hc, hfirst⟩, d, hd, hlast⟩ := h
  constructor
  · obtain ⟨cs, rfl⟩ := List.head?_eq_some_iff.mp hc
    rw [inset_cons (hother c hfirst)]
    exact ⟨c, rfl, hfirst⟩
  · obtain ⟨cs, rfl⟩ := List.getLast?_eq_some_iff.mp hd
    rw [inset_append, inset_cons (hother d hlast)]
    exact ⟨d, List.getLast?_concat, hlast⟩

theorem contentText_cons (n : Node) (ns : List Node) :
    contentText (n :: ns) = nodeText n ++ contentText ns := by
  rw [contentText, phrasesOf, Phrase.allInks, List.flatMap_append]
  rfl

theorem contentText_eq (ns : List Node) : contentText ns = ns.flatMap nodeText := by
  induction ns with
  | nil => rfl
  | cons n ns ih => rw [contentText_cons, ih, List.flatMap_cons]

theorem nodeText_text (t : String) (span : Option Span) :
    nodeText (.leaf (.text t) span) = escape t.toList := by
  rw [nodeText, phraseOf, Phrase.inks, List.flatMap_singleton, Ink.written, ← escape_eq]

theorem nodeText_code (t : String) (span : Option Span) :
    nodeText (.leaf (.code t) span) = Writer.codeSpan t.toList := by
  rw [nodeText, phraseOf, Phrase.inks, List.flatMap_singleton, Ink.written]

theorem nodeText_emphasis (strong : Bool) (ns : List Node) :
    nodeText (.branch (emphasisOf strong) none ns) = List.replicate (size strong) '*' ++
    contentText ns ++ List.replicate (size strong) '*' := by
  have hdelimiter : (delimiter strong).written = List.replicate (size strong) '*' := by
    cases strong <;> rfl
  rw [nodeText, phraseOf_emphasis, Phrase.inks, List.flatMap_cons, List.flatMap_append,
    List.flatMap_singleton, hdelimiter, contentText, List.append_assoc]

theorem nodeText_reference (r : Reference) (dest title : String) (ns : List Node) :
    nodeText (.branch (r.container dest title) none ns) =
    referenceText r (contentText ns) dest.toList title.toList := by
  rw [nodeText, phraseOf_reference, Phrase.inks, List.flatMap_singleton]
  rfl

theorem newline_not_mem_of_blanks (blanks : ∀ c ∈ s, Text.isBlank c → c = ' ') : '\n' ∉ s :=
  fun hmem => absurd (blanks _ hmem rfl) (by decide)

/-- What is written holds no white space but spaces and line ends. -/
theorem IsSettledInline.blanks (h : IsSettledInline signed inLink depth n) :
    ∀ c ∈ nodeText n, Text.isBlank c → c = ' ' ∨ c = '\n' := by
  induction h with
  | @text _ _ _ t _ blanks =>
    rw [nodeText_text]
    intro c hc hblank
    exact .inl (blanks_escape blanks c hc hblank)
  | @code _ _ _ t _ blanks =>
    rw [nodeText_code]
    intro c hc hblank
    exact .inl (blanks_codeSpan blanks c hc hblank)
  | softbreak => simp [nodeText, phraseOf, Phrase.inks, Ink.written]
  | linebreak => simp [nodeText, phraseOf, Phrase.inks, Ink.written, Text.isBlank]
  | emphasis strong _ _ _ ih =>
    have hsigns : ∀ c ∈ List.replicate (size strong) '*', Text.isBlank c → c = ' ' ∨ c = '\n' := by
      cases strong <;> simp [size, Text.isBlank]
    rw [nodeText_emphasis, contentText_eq, List.forall_mem_append, List.forall_mem_append,
      List.forall_mem_flatMap]
    exact ⟨⟨hsigns, ih⟩, hsigns⟩
  | @reference _ _ _ _ r dest title _ _ destination blanks _ _ _ ih =>
    have hopening : ∀ c ∈ opening r, Text.isBlank c → c = ' ' ∨ c = '\n' := by
      cases r <;> simp [opening, Text.isBlank]
    rw [nodeText_reference, referenceText, contentText_eq]
    simp only [List.forall_mem_append, List.forall_mem_cons, List.forall_mem_flatMap]
    exact ⟨⟨⟨hopening, ih⟩, by simp [Text.isBlank], by simp [Text.isBlank], fun c hc hblank =>
      .inl (blanks_linkTarget destination blanks c hc hblank)⟩, by simp [Text.isBlank], by simp⟩

/-- Only a text ends in an exclamation mark. -/
theorem exists_text_of_bang (h : IsSettledInline signed inLink depth n)
    (bang : (inset w (nodeText n)).getLast? = some '!') :
    ∃ t span, n = .leaf (.text t) span ∧ t.toList.getLast? = some '!' := by
  have hother : ∀ {before : Chars} {c : Char}, c ≠ '\n' → c ≠ '!' →
      nodeText n = before ++ [c] → False := by
    intro before c hend hbang htext
    have hlast : (inset w (nodeText n)).getLast? = some c := by
      rw [htext, inset_append, inset_cons hend]
      exact List.getLast?_concat
    exact hbang (Option.some.inj (hlast.symm.trans bang))
  have hbreak : ∀ {before : Chars}, '!' ∉ before → nodeText n = before ++ ['\n'] → False := by
    intro before hbefore htext
    have hmem := List.mem_of_getLast? bang
    rw [htext, inset_append, List.mem_append] at hmem
    obtain hmem | hmem := hmem
    · obtain ⟨c, hc, hmem⟩ := List.mem_flatMap.mp hmem
      split at hmem
      · simp [newline] at hmem
      · obtain rfl := List.mem_singleton.mp hmem
        exact hbefore hc
    · simp [inset, newline] at hmem
  cases h with
  | @text _ _ _ t _ blanks =>
    refine ⟨t, none, rfl, ?_⟩
    have hsingle : '\n' ∉ escape t.toList := newline_not_mem_of_blanks (blanks_escape blanks)
    rw [nodeText_text, inset_of_not_mem hsingle, escape_eq, getLast?_flatMap_text,
      map_sign_marks] at bang
    exact bang
  | @code _ _ _ t =>
    obtain ⟨before, htext⟩ : ∃ before, nodeText (.leaf (.code t) none) = before ++ ['\x60'] := by
      rw [nodeText_code, codeSpan_eq, Writer.fence, List.replicate_succ', ← List.append_assoc,
        ← List.append_assoc]
      exact ⟨_, rfl⟩
    exact (hother (by decide) (by decide) htext).elim
  | softbreak => exact (hbreak (List.not_mem_nil) rfl).elim
  | linebreak => exact (hbreak (show '!' ∉ ['\\'] by decide) rfl).elim
  | @emphasis _ _ _ strong ns =>
    have htext : nodeText (.branch (emphasisOf strong) none ns) = (List.replicate (size strong)
          '*' ++ contentText ns ++ List.replicate (size strong - 1) '*') ++ ['*'] := by
      rw [nodeText_emphasis, List.append_assoc _ (List.replicate _ _) ['*']]
      cases strong <;> rfl
    exact (hother (by decide) (by decide) htext).elim
  | @reference _ _ _ _ r dest title ns =>
    obtain ⟨before, htext⟩ : ∃ before, nodeText (.branch (r.container dest title) none ns) =
        before ++ [')'] := by
      rw [nodeText_reference, referenceText]
      exact ⟨_, rfl⟩
    exact (hother (by decide) (by decide) htext).elim

/-- A link is not written after an exclamation mark. -/
def IsGuarded (n : Node) (out : List Chars) : Prop :=
  n.kind? = some .link → ∀ chunk ∈ out.head?, chunk.getLast? ≠ some '!'

/-- Work that writes a node as one chunk. -/
def WritesChunk (style : Style) (n : Node) : Prop := ∀ l : Layout, IsGuarded n l.out →
  Writer.node style n l = .ok () { l with out := inset l.indent (nodeText n) :: l.out }

/-- Nodes in a row are written one after the other. -/
theorem each_chunks (settled : ∀ n ∈ ns, IsSettledInline signed inLink depth n)
    (writes : ∀ n ∈ ns, WritesChunk style n) (meets : ns.IsChain Meets) (l : Layout)
    (first : ∀ n ∈ ns.head?, IsGuarded n l.out) :
    Writer.each style ns l = .ok ()
      { l with out := (ns.map fun n => inset l.indent (nodeText n)).reverse ++ l.out } := by
  induction ns generalizing l with
  | nil =>
    rw [Writer.each]
    rfl
  | cons n ns ih =>
    obtain ⟨hn, hns⟩ := List.forall_mem_cons.mp settled
    obtain ⟨hwrite, hwrites⟩ := List.forall_mem_cons.mp writes
    rw [Writer.each, run_bind_of_ok (hwrite l (first n rfl)), ih hns hwrites meets.tail]
    · simp
    · intro m hm hlink chunk hchunk hbang
      obtain ⟨ns, rfl⟩ := List.head?_eq_some_iff.mp hm
      obtain rfl := Option.some.inj hchunk
      obtain ⟨t, span, rfl, hlast⟩ := exists_text_of_bang hn hbang
      exact meets.rel.bang hlink t span rfl hlast

theorem kind?_isSome (h : IsSettledInline signed inLink depth n) : n.kind?.isSome := by
  cases h <;> rfl

/-- Settled content is written as its text. -/
theorem inlines_content (settled : ∀ n ∈ ns, IsSettledInline signed inLink depth n)
    (writes : ∀ n ∈ ns, WritesChunk style n) (meets : ns.IsChain Meets) (l : Layout) :
    Writer.inlines style ns l = .ok (inset l.indent (contentText ns)) l := by
  have hfirst : ∀ n ∈ ns.head?, IsGuarded n [] := by simp [IsGuarded]
  refine Writer.inlines_eq_ok (fun n hn => kind?_isSome (settled n hn))
    ⟨_, each_chunks settled writes meets { l with out := [] } hfirst, ?_⟩
  rw [List.append_nil, List.reverse_reverse, contentText_eq, inset, List.flatMap_assoc,
    List.flatMap_def]
  rfl

theorem delimited_of_bounded {delimiter : Chars} (h : Text.Bounded Text.isBlank s) :
    Writer.delimited delimiter s = delimiter ++ s ++ delimiter := by
  have hsome : s ≠ [] := by
    rintro rfl
    obtain ⟨⟨c, hc, -⟩, -⟩ := h
    cases hc
  have htrim := h.trim
  have hleading : s.takeWhile Text.isBlank = [] := by
    obtain ⟨⟨c, hc, hfirst⟩, -⟩ := h
    obtain ⟨cs, rfl⟩ := List.head?_eq_some_iff.mp hc
    exact List.takeWhile_cons_of_neg (by simp [hfirst])
  have htrailing : Text.takeEndWhile Text.isBlank s = [] := by
    obtain ⟨-, c, hc, hlast⟩ := h
    obtain ⟨cs, rfl⟩ := List.getLast?_eq_some_iff.mp hc
    rw [Text.takeEndWhile_concat, hlast]
    rfl
  rw [Writer.delimited_of_ink (by rwa [htrim]), htrim, hleading, htrailing]
  simp

theorem emit_eq_ok (chunk : Chars) (l : Layout) :
    Writer.emit chunk l = .ok () { l with out := chunk :: l.out } :=
  rfl

theorem guardLink_of_guarded {l : Layout} (h : ∀ chunk ∈ l.out.head?, chunk.getLast? ≠ some '!') :
    Writer.guardLink style l = .ok () l := by
  obtain ⟨out, indent, first, tight, markers⟩ := l
  rw [Writer.guardLink]
  cases out with
  | nil => split <;> rfl
  | cons chunk out =>
    have hchunk : (chunk.getLast? == some '!') = false := by simpa using h chunk rfl
    split
    · have hmodify : ∀ (f : Layout → Layout) (l : Layout), (modify f : Writing Unit) l =
          .ok () (f l) :=
        fun _ _ => rfl
      rw [hmodify]
      simp [hchunk]
    · rfl

/-- A settled node is written as its text. -/
theorem IsSettledInline.writesChunk (h : IsSettledInline signed inLink depth n)
    (escaped : style.escape) : WritesChunk style n := by
  induction h with
  | @text _ _ _ t _ blanks =>
    intro l _
    have hsingle : '\n' ∉ escape t.toList := newline_not_mem_of_blanks (blanks_escape blanks)
    rw [nodeText_text, inset_of_not_mem hsingle, Writer.node, Writer.leaf, Writer.plainText,
      if_pos escaped]
    rfl
  | @code _ _ _ t _ blanks =>
    intro l _
    have hsingle : '\n' ∉ Writer.codeSpan t.toList :=
      newline_not_mem_of_blanks (blanks_codeSpan blanks)
    rw [nodeText_code, inset_of_not_mem hsingle, Writer.node, Writer.leaf]
    rfl
  | softbreak | linebreak =>
    intro l _
    rw [Writer.node, Writer.leaf]
    simp [nodeText, phraseOf, Phrase.inks, Ink.written, inset]
    rfl
  | @emphasis _ _ _ strong ns _ emphasized below ih =>
    intro l _
    have hinlines := inlines_content below ih emphasized.meets l
    have hstars : '\n' ∉ List.replicate (size strong) '*' := by simp
    rw [nodeText_emphasis, inset_append, inset_append, inset_of_not_mem hstars,
      ← delimited_of_bounded (bounded_inset emphasized.bounded l.indent)]
    cases strong <;>
      simp only [emphasisOf, if_true, if_false, Bool.false_eq_true] <;>
      rw [Writer.node, run_bind_of_ok hinlines] <;>
      rfl
  | @reference _ _ _ _ r dest title ns _ destination blanks _ label below ih =>
    intro l guarded
    have hinlines := inlines_content below ih label.meets l
    have hopening : '\n' ∉ opening r := by cases r <;> simp [opening]
    have htarget : '\n' ∉ ']' :: '(' :: linkTarget dest.toList title.toList ++ [')'] := by
      simpa using newline_not_mem_of_blanks (blanks_linkTarget destination blanks)
    rw [nodeText_reference, referenceText, List.append_assoc, inset_append, inset_append,
      inset_of_not_mem hopening, inset_of_not_mem htarget]
    cases r with
    | image =>
      rw [Reference.container, Writer.node, run_bind_of_ok hinlines]
      rw [emit_eq_ok]
      simp [opening]
    | link =>
      rw [Reference.container, Writer.node, run_bind_of_ok (guardLink_of_guarded (guarded rfl)),
        run_bind_of_ok hinlines]
      rw [emit_eq_ok]
      simp [opening]

theorem IsSettledContent.inlines (h : IsSettledContent ns) (escaped : style.escape) (l : Layout) :
    Writer.inlines style ns l = .ok (inset l.indent (contentText ns)) l := by
  obtain ⟨signed, hsettled⟩ := h.settled
  exact inlines_content hsettled (fun n hn => (hsettled n hn).writesChunk escaped) h.label.meets l

theorem IsSettledContent.blanks (h : IsSettledContent ns) :
    ∀ c ∈ contentText ns, Text.isBlank c → c = ' ' ∨ c = '\n' := by
  obtain ⟨signed, hsettled⟩ := h.settled
  rw [contentText_eq, List.forall_mem_flatMap]
  exact fun n hn => (hsettled n hn).blanks

/-- A paragraph of settled content is written as the lines of its text. -/
theorem IsSettledContent.isHung (h : IsSettledContent ns)
    (escaped : style.escape) (headed : Headed (Text.lines (contentText ns)))
    (some : ∀ l ∈ Text.lines (contentText ns), l ≠ []) :
    Writer.IsHung style (.branch .paragraph none ns) (Text.lines (contentText ns)) := by
  obtain ⟨signed, hsettled⟩ := h.settled
  have own : isTransparent (.branch .paragraph none ns) = false := by
    have hinline : ∀ n ∈ ns, isInline n := by
      intro n hn
      cases hsettled n hn with
      | text | code | softbreak | linebreak => rfl
      | emphasis strong => cases strong <;> rfl
      | reference r => cases r <;> rfl
    simpa [isTransparent] using hinline
  refine {
    inline := rfl
    block := Writer.block_branch own style
    unit := ofBlock_single rfl own
    headed := headed
    writes := fun l => ?_ }
  rw [Writer.node, ← inset_eq_unlines some]
  exact .after (h.inlines escaped l) (Writer.writes_emit _ l)

end Canonmark.Markdown
