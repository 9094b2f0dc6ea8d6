import Canonmark.Proofs.Markdown.Hanging
import Canonmark.Proofs.Markdown.Standing

/-! What the lines of a block that stands alone leave open. -/
namespace Canonmark.Markdown

variable {levels width : Nat} {c : Char} {cs s t : Chars} {k : Kind} {g g' : Growth} {l : Line}
    {later ls : List Line} {kind : RawHtml.BlockKind} {first : Chars}

theorem mem_of_mem_dropFrom {d : Char} (count column : Nat)
    (h : d ∈ (Line.dropFrom count column s).text) : d ∈ s ∨ d = ' ' := by
  induction s generalizing count column with
  | nil => exact .inl h
  | cons e s ih =>
    rw [Line.dropFrom] at h
    split at h
    · exact .inl h
    · split at h
      · exact (ih _ _ h).imp_left (List.mem_cons_of_mem e)
      · split at h
        · dsimp only at h
          split at h
          · exact (ih _ _ h).imp_left (List.mem_cons_of_mem e)
          · obtain h | h := List.mem_append.mp h
            · exact .inr (List.eq_of_mem_replicate h)
            · exact .inl (List.mem_cons_of_mem e h)
        · exact .inl h

theorem single_of_rest? {rest : Line} (single : '\n' ∉ l.text)
    (h : (Layer.item width).rest? l = some rest) : '\n' ∉ rest.text := by
  rw [Layer.rest?] at h
  split at h
  · obtain rfl := Option.some.inj h
    exact List.not_mem_nil
  · obtain ⟨-, hdrop⟩ := Option.ite_none_right_eq_some.mp h
    obtain rfl := Option.some.inj hdrop
    intro hmem
    obtain hmem | hmem := mem_of_mem_dropFrom _ _ hmem
    · exact single hmem
    · cases hmem

/-- HTML that is open from its first line on, since no line ends it. -/
structure Growth.IsOpenHtml (kind : RawHtml.BlockKind) (first : Chars) (g : Growth) : Prop where
  closed : g.closed = []
  lines : ∃ lines, g.tip = .html kind (first :: lines) ∧
    ∀ l ∈ first :: lines, kind.endsAt l = false ∧ '\n' ∉ l

/-- Over a line, HTML stays open or is closed. -/
theorem openHtml_within (isOpen : g.IsOpenHtml kind first) (single : '\n' ∉ l.text)
    (h : g.within? levels width later l = some g') :
    g'.IsOpenHtml kind first ∨ 0 < solids g'.closed := by
  obtain ⟨closed, tip⟩ := g
  obtain ⟨rfl, lines, rfl, unended⟩ := isOpen
  unfold Growth.within? at h
  dsimp only at h
  split at h
  · rename_i rest hrest
    obtain rfl := Option.some.inj h
    rw [Tip.advance]
    split
    · exact .inr Nat.one_pos
    · rw [Tip.addHtml]
      split
      · exact .inr Nat.one_pos
      · rename_i hends
        refine .inl ⟨rfl, lines ++ [rest.text], rfl, ?_⟩
        rw [← List.cons_append, List.forall_mem_append, List.forall_mem_singleton]
        exact ⟨unended, eq_false_of_ne_true hends, single_of_rest? single hrest⟩
  · cases (Bool.and_eq_true_iff.mp (Option.ite_none_right_eq_some.mp h).1).1

theorem openHtml_allWithin (isOpen : g.IsOpenHtml kind first ∨ 0 < solids g.closed)
    (single : ∀ l ∈ ls, '\n' ∉ l.text) (h : g.allWithin? levels width later ls = some g') :
    g'.IsOpenHtml kind first ∨ 0 < solids g'.closed := by
  induction ls generalizing g with
  | nil =>
    obtain rfl := Option.some.inj h
    exact isOpen
  | cons l ls ih =>
    obtain ⟨hl, hls⟩ := List.forall_mem_cons.mp single
    obtain ⟨step, hstep, hrest⟩ := Option.bind_eq_some_iff.mp h
    refine ih ?_ hls hrest
    obtain isOpen | filled := isOpen
    · exact openHtml_within isOpen hl hstep
    · obtain ⟨bs, hbs⟩ := closed_within hstep
      rw [hbs, solids_append]
      exact .inr (Nat.add_pos_left filled _)

/-- Where the only block is closed, nothing is open that a blank line does not end. -/
theorem endsAtBlankLine_of_closed (filled : 0 < solids g.closed)
    (single : solids (g.blocks true) ≤ 1) : g.tip.EndsAtBlankLine := by
  rw [Growth.blocks, solids_append] at single
  have hnone : solids (g.tip.closeIn true) = 0 := by omega
  cases htip : g.tip with
  | fenced f lines =>
    rw [htip, Tip.closeIn, ← List.singleton_append, solids_append] at hnone
    exact absurd hnone (Nat.ne_of_gt (Nat.add_pos_left Nat.one_pos _))
  | html kind lines =>
    rw [htip, Tip.closeIn, ← List.singleton_append, solids_append] at hnone
    exact absurd hnone (Nat.ne_of_gt (Nat.add_pos_left Nat.one_pos _))
  | idle | defined _ | paragraph _ | indented _ | quote _ _ | list _ _ | item _ _ _ _ _ => trivial

/-- What HTML that stands alone leaves open is what none of its lines ends. -/
theorem IsAlone.openHtml (h : IsAlone levels c cs ls k g)
    (single : '\n' ∉ c :: cs) (singles : ∀ l ∈ ls, '\n' ∉ l.text)
    (begins : Start.find? .free true (inItem (c :: cs)) = some (.html kind)) :
    g.tip.EndsAtBlankLine ∨ g.IsOpenHtml kind (c :: cs) := by
  have hgrowth := h.growth
  rw [Line.itemGrowth?, fresh_of_find? h.hasInk begins] at hgrowth
  have hstart : (Tip.start (levels + 1) { layers := [.item 2], later := ls ++ [] } (.html kind)
      (inItem (c :: cs))).IsOpenHtml kind (c :: cs) ∨ 0 < solids (Tip.start (levels + 1)
        { layers := [.item 2], later := ls ++ [] } (.html kind) (inItem (c :: cs))).closed := by
    simp only [Tip.start]
    rw [Tip.addHtml]
    split
    · exact .inr Nat.one_pos
    · rename_i hends
      exact .inl ⟨rfl, [], rfl, List.forall_mem_singleton.mpr ⟨eq_false_of_ne_true hends, single⟩⟩
  obtain hopen | filled := openHtml_allWithin hstart singles hgrowth
  · exact .inr hopen
  · exact .inl (endsAtBlankLine_of_closed filled (Nat.le_of_eq h.solids_eq_one))

theorem lines_dropEndWhile (s : Chars) :
    Text.lines (Text.dropEndWhile (· == '\n') s) <+: Text.lines s := by
  have hparts := Text.dropEndWhile_append_takeEndWhile (· == '\n') s
  cases hends : Text.takeEndWhile (· == '\n') s with
  | nil =>
    rw [hends, List.append_nil] at hparts
    exact (congrArg Text.lines hparts).symm ▸ List.prefix_rfl
  | cons d ends =>
    have hd : d ∈ Text.takeEndWhile (· == '\n') s := hends ▸ List.mem_cons_self
    rw [Text.takeEndWhile, List.mem_reverse] at hd
    obtain rfl : d = '\n' := by simpa using List.mem_takeWhile_imp hd
    rw [hends] at hparts
    conv => rhs; rw [← hparts, Text.lines_newline]
    exact List.prefix_append _ _

theorem prefix_lastLines (lines : List Chars) : Tip.lastLines true lines <+: lines := by
  rw [Tip.lastLines, if_pos rfl, ← List.reverse_suffix, List.reverse_reverse]
  exact List.dropWhile_suffix _

theorem exists_cons_of_prefix {first : Chars} {lines ms : List Chars} (h : ms <+: first :: lines)
    (some : ms ≠ []) : ∃ others, ms = first :: others ∧ others ⊆ lines := by
  obtain ⟨m, others, rfl⟩ := List.exists_cons_of_ne_nil some
  obtain ⟨rfl, hothers⟩ := List.cons_prefix_cons.mp h
  exact ⟨others, rfl, hothers.subset⟩

/-- The lines of HTML are those that it is read from, but for blank ones at the end. -/
theorem lines_html {lines : List Chars} (ink : HasInk first)
    (single : ∀ l ∈ first :: lines, '\n' ∉ l) :
    ∃ others ⊆ lines, Text.lines
      (Text.dropEndWhile (· == '\n') (Text.unlines (Tip.lastLines true (first :: lines))) ++
        ['\n']) = first :: (others ++ [[]]) := by
  have hsome : Tip.lastLines true (first :: lines) ≠ [] := by
    obtain ⟨d, hd, hblank⟩ := ink
    rw [Tip.lastLines, if_pos rfl, Ne, List.reverse_eq_nil_iff, List.dropWhile_eq_nil_iff]
    intro hall
    have hfirst := List.all_eq_true.mp (hall first (by simp)) d hd
    rw [hblank] at hfirst
    cases hfirst
  obtain ⟨kept, hkept, hsubset⟩ := exists_cons_of_prefix (prefix_lastLines _) hsome
  have hlines : Text.lines (Text.unlines (first :: kept)) = first :: kept :=
    Text.lines_unlines (List.cons_ne_nil _ _) fun l hl =>
      single l (List.cons_subset_cons first hsubset hl)
  have hprefix := lines_dropEndWhile (Text.unlines (first :: kept))
  rw [hlines] at hprefix
  obtain ⟨others, hothers, hothersSubset⟩ := exists_cons_of_prefix hprefix (Text.lines_ne_nil _)
  refine ⟨others, List.Subset.trans hothersSubset hsubset, ?_⟩
  rw [hkept, Text.lines_newline, hothers]
  rfl

/-- Whether the HTML that a text begins is ended by one of its lines, or by the next blank line. -/
def isEndedHtml (text : Chars) : Bool :=
  match RawHtml.blockKind? false ((Text.lines text).headD []) with
  | none => true
  | some kind => kind == .paragraph || (Text.lines text).any kind.endsAt

theorem endsAt_nil (kind : RawHtml.BlockKind) : kind.endsAt [] = false := by
  cases kind <;> rfl

/-- HTML that is still open is ended by a blank line, or not ended. -/
theorem Growth.IsOpenHtml.isEndedHtml_eq (h : g.IsOpenHtml kind first)
    (ink : HasInk first) (begins : RawHtml.blockKind? false first = some kind) :
    ∃ text, Block.html text ∈ g.blocks true ∧
      isEndedHtml text = (kind == .paragraph) := by
  obtain ⟨lines, htip, hunended⟩ := h.lines
  obtain ⟨others, hsubset, hlines⟩ := lines_html ink fun l hl => (hunended l hl).2
  have hclose : g.tip.closeIn true = .html (Text.dropEndWhile (· == '\n') (Text.unlines
        (Tip.lastLines true (first :: lines))) ++ ['\n']) :: Tip.blankEnd (first :: lines) :=
    congrArg (Tip.closeIn true) htip
  refine ⟨_, List.mem_append_right _ (hclose ▸ List.mem_cons_self), ?_⟩
  have hnone : (first :: (others ++ [[]])).any kind.endsAt = false := by
    rw [List.any_eq_false]
    intro l hl
    obtain hl | hl :=
      List.mem_append.mp ((List.cons_append ..).symm ▸ hl : l ∈ (first :: others) ++ [[]])
    · simp [(hunended l (List.cons_subset_cons first hsubset hl)).1]
    · rw [List.mem_singleton.mp hl, endsAt_nil]
      exact Bool.false_ne_true
  rw [isEndedHtml, hlines, List.headD_cons, begins]
  dsimp only
  rw [hnone, Bool.or_false]

variable {st : Start}

/-- A line with ink at its start is no code. -/
theorem not_indentedCode (space : isSpace c = false) (column : Nat) :
    Start.find? .free true ⟨column, c :: cs⟩ ≠ some .indentedCode := by
  intro h
  rw [find?_eq_or (isIndented_of_head space column)] at h
  simp [Option.or_eq_some_iff, Option.bind_eq_some_iff] at h

theorem blockKind?_of_find? (space : isSpace c = false) {column : Nat}
    (h : Start.find? .free true ⟨column, c :: cs⟩ = some (.html kind)) :
    RawHtml.blockKind? false (c :: cs) = some kind := by
  rw [find?_eq_or (isIndented_of_head space column), content_of_head space] at h
  simp [Option.or_eq_some_iff, Option.bind_eq_some_iff] at h
  exact h.2.2.2

namespace IsReadAlone

variable {n : Node} {b : Block} {ls : List Chars}

theorem single (h : IsReadAlone n c cs ls k g) : ∀ l ∈ plainLines ls, '\n' ∉ l.text := by
  intro l hl
  obtain ⟨text, htext, rfl⟩ := List.mem_map.mp hl
  exact h.text.single text (List.mem_cons_of_mem _ htext)

theorem eq_of_mem (h : IsReadAlone n c cs ls k g) (hb : b ∈ g.blocks true) :
    ∃ final, ∀ m ∈ Block.nodes [] final b, m = n := by
  obtain ⟨final, hfinal⟩ := exists_of_mem [] true hb
  exact ⟨final, fun m hm => List.mem_singleton.mp (h.nodes ▸ hfinal m hm)⟩

/-- A block that is no paragraph or heading is begun by the first line. -/
theorem exists_start (h : IsReadAlone n c cs ls k g) (other : k ≠ .paragraph ∧ k ≠ .heading) :
    ∃ st, Start.find? .free true (inItem (c :: cs)) = some st ∧ st.kind = k :=
  find?_of_kind h.alone.hasInk h.alone.growth h.alone.kinds h.alone.not_definition other

/-- Unless it is code, a block that stands alone leaves nothing open that a blank line does not end,
if HTML is ended. -/
theorem endsAtBlankLine (h : IsReadAlone n c cs ls k g) (other : k ≠ .codeBlock)
    (ended : ∀ text tag, n = .leaf (.htmlBlock text tag) none → isEndedHtml text.toList) :
    g.tip.EndsAtBlankLine := by
  by_cases html : k = .htmlBlock
  · subst html
    obtain ⟨st, hfind, hkind⟩ := h.exists_start (by decide)
    obtain ⟨kind, rfl⟩ : ∃ kind, st = .html kind := by
      cases st <;> first | exact ⟨_, rfl⟩ | cases hkind
    obtain hends | hopen := h.alone.openHtml (h.text.single _ List.mem_cons_self) h.single hfind
    · exact hends
    · obtain ⟨text, hmem, hended⟩ :=
        hopen.isEndedHtml_eq h.alone.hasInk (blockKind?_of_find? h.alone.space hfind)
      obtain ⟨final, hnode⟩ := h.eq_of_mem hmem
      have hhtml := ended _ none (hnode _ List.mem_cons_self).symm
      rw [String.toList_ofList, hended, beq_iff_eq] at hhtml
      obtain ⟨lines, htip, -⟩ := hopen.lines
      rw [htip]
      exact hhtml
  · cases htip : g.tip with
    | fenced f lines => exact absurd (h.alone.kind_of_tip htip List.mem_cons_self rfl) other
    | html kind lines => exact absurd (h.alone.kind_of_tip htip List.mem_cons_self rfl) html
    | idle | defined _ | paragraph _ | indented _ | quote _ _ | list _ _ | item _ _ _ _ _ => trivial

end IsReadAlone

open Writer (fence fenceAround codeBlock indentLines leafText)

theorem textInItem_leaf {x : Leaf} (h : leafText {} 2 x = .ok t) :
    textInItem (.leaf x none) = t := by
  refine textInItem_of_run ?_
  rw [merged_leaf, Writer.node, Writer.leaf_eq, h]

theorem StandsAlone.exists_leafText {x : Leaf} (h : StandsAlone (.leaf x none)) :
    leafText {} 2 x = .ok (textInItem (.leaf x none)) := by
  cases htext : leafText {} 2 x with
  | ok t => rw [textInItem_leaf htext]
  | error f =>
    refine absurd ?_ h.some
    rw [textInItem, merged_leaf, Writer.node, Writer.leaf_eq, htext]

theorem exists_codeBlock_end (mark text info : Chars) :
    ∃ s, codeBlock mark text info = s ++ '\n' :: mark := by
  have heither : ∀ (b : Bool) (body : Chars), ∃ s, Text.unlines
      (if b then [mark ++ info, mark] else [mark ++ info, body, mark]) = s ++ '\n' :: mark := by
    rintro (_ | _) body
    · exact ⟨mark ++ info ++ '\n' :: body, by simp [Text.unlines_cons]⟩
    · exact ⟨mark ++ info, by simp [Text.unlines_cons]⟩
  exact heither _ _

/-- The last line is indented like the others. -/
theorem indentLines_newline (indent : Nat) (some : t ≠ []) (single : '\n' ∉ t) (s : Chars) :
    ∃ u, indentLines indent (s ++ '\n' :: t) = u ++ '\n' :: (List.replicate indent ' ' ++ t) := by
  obtain ⟨line, rest, hlines⟩ := List.exists_cons_of_ne_nil (Text.lines_ne_nil s)
  refine ⟨indentLines indent s, ?_⟩
  have hempty : t.isEmpty = false := by simpa using some
  rw [indentLines, indentLines, Text.lines_newline, Text.lines_of_not_mem single, hlines,
    List.cons_append]
  simp only [List.map_append, List.map_cons, List.map_nil, hempty, Bool.false_eq_true, if_false]
  rw [← List.cons_append, Text.unlines_append _ (List.cons_ne_nil _ _), Text.unlines_singleton,
    Text.flatMap_end (List.cons_ne_nil _ _), List.append_assoc]
  rfl

/-- Code ends in a line of more backticks than stand together in it. -/
theorem exists_last_of_code {text : String} {info : Option String} {tag : Option TagInfo}
    (h : leafText {} 2 (.codeBlock text info tag) = .ok t) :
    ∃ s n, t = s ++ '\n' :: ([' ', ' '] ++ fence (n + 1)) ∧ longestRun 0 text.toList ≤ n := by
  obtain ⟨mark, hmark, rfl⟩ := map_eq_ok h
  obtain ⟨n, rfl, hlong⟩ := Writer.exists_fence hmark
  obtain ⟨s, hs⟩ := exists_codeBlock_end (fence (n + 1)) text.toList (info.getD "").toList
  have hsome : fence (n + 1) ≠ [] := by simp [fence]
  have hsingle : '\n' ∉ fence (n + 1) := by simp [fence]
  obtain ⟨u, hu⟩ := indentLines_newline 2 hsome hsingle s
  exact ⟨u, n, by rw [hs, hu]; rfl, hlong⟩

theorem dropIndent_of_head (space : isSpace c = false) (count column : Nat) :
    (Line.mk column (c :: cs)).dropIndent count = ⟨column, c :: cs⟩ := by
  obtain ⟨hblank, htab⟩ : (c == ' ') = false ∧ (c == '\t') = false := by simpa [isSpace] using space
  rw [Line.dropIndent, Line.dropFrom, hblank, htab]
  split <;> rfl

/-- What a closed fence leaves open: nothing, since its text does not hold the line that closes
it. -/
theorem IsReadAlone.ahead_of_code {n : Node} {ls : List Chars} {text : String}
    {info : Option String} {tag : Option TagInfo} (h : IsReadAlone n c cs ls .codeBlock g)
    (alone : StandsAlone n) (code : n = .leaf (.codeBlock text info tag) none) :
    (∀ later, (inItem (c :: cs)).itemGrowth? 19 later (plainLines ls) = some g) ∧
    g.tip = .idle := by
  subst code
  obtain ⟨st, hfind, hkind⟩ := h.exists_start (by decide)
  obtain ⟨f, rfl⟩ : ∃ f, st = .fence f := by
    cases st with
    | fence f => exact ⟨f, rfl⟩
    | indentedCode => exact absurd hfind (not_indentedCode h.alone.space 2)
    | quote _ | heading _ _ | html _ | thematicBreak | item _ => cases hkind
  obtain ⟨hahead, hends⟩ := h.alone.ahead_of_fence hfind
  refine ⟨hahead, ?_⟩
  obtain ⟨s, m, htext, hlong⟩ := exists_last_of_code alone.exists_leafText
  obtain ⟨mark, hmark⟩ : ∃ mark, fence (m + 1) = '\x60' :: mark := ⟨_, List.replicate_succ⟩
  have hinked := h.text
  rw [htext] at hinked
  obtain ⟨before, rfl⟩ := hinked.last_of_newline (by simp [fence])
  obtain hidle | ⟨-, hnone⟩ | ⟨before', last, lines, rest, hlast, hrest, htip⟩ := hends
  · exact hidle
  · simp [plainLines] at hnone
  · exfalso
    rw [plainLines, List.map_append, List.map_singleton] at hlast
    obtain rfl := List.singleton_injective (List.append_inj' hlast rfl).2
    have hfence : (Layer.item 2).rest? { text := [' ', ' '] ++ fence (m + 1) } =
        some ⟨2, fence (m + 1)⟩ := by
      rw [hmark]
      exact rest?_replicate rfl 2 0
    obtain rfl := Option.some.inj (hfence.symm.trans hrest)
    have hdrop : ((Line.mk 2 (fence (m + 1))).dropIndent f.indent).text = fence (m + 1) := by
      rw [hmark, dropIndent_of_head rfl]
    rw [hdrop] at htip
    have hink : HasInk (fence (m + 1)) := hmark ▸ ⟨'\x60', List.mem_cons_self, rfl⟩
    have hblock : Tip.fencedBlock f (lines ++ [fence (m + 1)]) ∈ g.blocks true := by
      rw [Growth.blocks, htip, Tip.closeIn, (inkEnd_append lines hink).inked.1]
      exact List.mem_append_right _ List.mem_cons_self
    obtain ⟨final, hnode⟩ := h.eq_of_mem hblock
    have hheld : fence (m + 1) <:+: text.toList := by
      obtain ⟨rfl, -, -⟩ := Leaf.codeBlock.inj (Node.leaf.inj (hnode _ List.mem_cons_self)).1
      rw [String.toList_ofList, Tip.endLines, List.flatMap_append, List.flatMap_singleton]
      exact (List.prefix_append _ _).isInfix.trans (List.suffix_append _ _).isInfix
    have hshort := length_le_longestRun hheld
    omega

/-- What follows the signs of a heading: nothing, or a space and a text. -/
inductive IsHeadingEnd : Chars → Prop
  | nil : IsHeadingEnd []
  | space (s : Chars) : IsHeadingEnd (' ' :: s)

theorem heading?_of_end (level : Level) (h : IsHeadingEnd s) :
    ∃ text, Start.heading? (List.replicate level.number '#' ++ s) = some (level, text) := by
  cases h with
  | nil => cases level <;> exact ⟨_, rfl⟩
  | space s => exact ⟨_, heading?_of_signs level s⟩

theorem exists_headingText {level : Level} {children : List Node}
    (h : Block.IsReadBlock (.branch (.heading level) none children)) :
    ∃ rest, textInItem
      (.branch (.heading level) none children) = List.replicate level.number '#' ++ rest ∧
        IsHeadingEnd rest := by
  obtain ⟨content, hcontent⟩ : ∃ content, textInItem (.branch (.heading level) none children) =
      Writer.headingText {} level content := by
    cases h with
    | text _ inline =>
      obtain ⟨content, hinlines⟩ : ∃ content, Writer.inlines {} (Merge.pushAll [] children)
          { indent := 2 } = .ok content { indent := 2 } :=
        ⟨_, Writer.inlines_inked (Writer.isInline_pushAll inline) _ false⟩
      refine ⟨content, ?_⟩
      rw [textInItem, Merge.merged_branch _ (by simp [Container.kind]), Writer.node,
        run_bind_of_ok hinlines]
      exact List.append_nil _
  have heither : ∀ shown : Chars, ∃ rest, (if shown.isEmpty then List.replicate level.number '#'
    else List.replicate level.number '#' ++ ' ' :: shown) = List.replicate
    level.number '#' ++ rest ∧
        IsHeadingEnd rest := by
    intro shown
    split
    · exact ⟨[], (List.append_nil _).symm, .nil⟩
    · exact ⟨_, rfl, .space shown⟩
  rw [hcontent]
  exact heither _

/-- The first line of a heading begins it. -/
theorem IsInkedText.find?_heading {level : Level} {ls : List Chars}
    (h : IsInkedText (List.replicate level.number '#' ++ s) c cs ls) (ends : IsHeadingEnd s) :
    ∃ text, Start.find? .free true (inItem (c :: cs)) = some (.heading level text) := by
  obtain ⟨l, hfirst, hlines⟩ := h.first_of_append (by simp)
  have hends : IsHeadingEnd l := by
    cases ends with
    | nil =>
      obtain rfl := (List.cons.inj hlines).1
      exact .nil
    | space s =>
      obtain ⟨l', ls', hs⟩ := List.exists_cons_of_ne_nil (Text.lines_ne_nil (normalizeEnds s))
      have hspaced : normalizeEnds (' ' :: s) = [' '] ++ normalizeEnds s :=
        normalizeEnds_append (s := [' ']) (by simp)
      rw [hspaced, Text.lines_append_left (by simp) hs] at hlines
      obtain rfl := (List.cons.inj hlines).1
      exact .space l'
  obtain ⟨text, htext⟩ := heading?_of_end level hends
  obtain rfl : c = '#' := by
    obtain ⟨m, hm⟩ : ∃ m, level.number = m + 1 := by cases level <;> exact ⟨_, rfl⟩
    rw [hm, List.replicate_succ] at hfirst
    exact (List.cons.inj hfirst).1
  rw [← hfirst] at htext
  refine ⟨text, ?_⟩
  rw [inItem, Start.find?, isIndented_of_head rfl, quoteRest?_of_head rfl (by decide),
    content_of_head rfl, htext]
  simp

theorem exists_of_kind_heading {n : Node} (h : Block.IsReadBlock n) (hk : n.kind? = some .heading) :
    ∃ level children, n = .branch (.heading level) none children := by
  cases h with
  | leaf inline => rename_i x; cases x <;> cases hk
  | text text inline =>
    obtain rfl | ⟨level, rfl⟩ := text
    · cases hk
    · exact ⟨level, _, rfl⟩
  | quote children | list marker tight isItem => cases hk

theorem exists_of_kind_code {n : Node} (h : Block.IsReadBlock n) (hk : n.kind? = some .codeBlock) :
    ∃ text info tag, n = .leaf (.codeBlock text info tag) none := by
  cases h with
  | leaf inline => rename_i x; cases x <;> first | exact ⟨_, _, _, rfl⟩ | cases hk
  | text text inline => obtain rfl | ⟨level, rfl⟩ := text <;> cases hk
  | quote children | list marker tight isItem => cases hk

theorem IsReadAlone.find?_heading {n : Node} {ls : List Chars}
    (h : IsReadAlone n c cs ls .heading g) (alone : StandsAlone n) :
    ∃ level text, Start.find? .free true (inItem (c :: cs)) = some (.heading level text) := by
  obtain ⟨level, children, rfl⟩ := exists_of_kind_heading alone.isReadBlock h.kind
  obtain ⟨rest, hrest, hends⟩ := exists_headingText alone.isReadBlock
  have hinked := h.text
  rw [hrest] at hinked
  obtain ⟨text, hfind⟩ := hinked.find?_heading hends
  exact ⟨level, text, hfind⟩

/-- Headings, thematic breaks and code leave nothing open, whatever is ahead. -/
theorem IsReadAlone.ahead {n : Node} {ls : List Chars} (h : IsReadAlone n c cs ls k g)
    (alone : StandsAlone n) (ends : k = .heading ∨ k = .thematicBreak ∨ k = .codeBlock) :
    (∀ later, (inItem (c :: cs)).itemGrowth? 19 later (plainLines ls) = some g) ∧
    g.tip = .idle := by
  obtain rfl | rfl | rfl := ends
  · obtain ⟨level, text, hfind⟩ := h.find?_heading alone
    have hstart : ∀ o, Tip.start 19 o (.heading level text) (inItem (c :: cs)) =
        .leaf (.heading level text) :=
      fun o => by simp only [Tip.start]
    exact h.alone.ahead_of_leaf hfind rfl hstart
  · obtain ⟨st, hfind, hkind⟩ := h.exists_start (by decide)
    obtain rfl : st = .thematicBreak := by cases st <;> first | rfl | cases hkind
    have hstart : ∀ o, Tip.start 19 o .thematicBreak (inItem (c :: cs)) = .leaf .thematicBreak :=
      fun o => by simp only [Tip.start]
    exact h.alone.ahead_of_leaf hfind rfl hstart
  · obtain ⟨text, info, tag, hcode⟩ := exists_of_kind_code alone.isReadBlock h.kind
    exact h.ahead_of_code alone hcode

end Canonmark.Markdown
