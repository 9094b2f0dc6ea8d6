import Canonmark.Proofs.Markdown.Ahead

/-! What the last line of an item leaves, if there is ink in it. -/
namespace Canonmark.Markdown

variable {levels width : Nat} {o : Outlook} {l last rest : Line} {tip : Tip} {g g' : Growth}
    {later ls : List Line} {s : Chars} {c : Char}

/-- More than white space, that of Unicode included. -/
def HasInk (s : Chars) : Prop := ∃ c ∈ s, Text.isBlank c = false

theorem HasInk.mono {t : Chars} (h : HasInk s) (keeps : ∀ c ∈ s, isSpace c = false → c ∈ t) :
    HasInk t := by
  obtain ⟨c, hc, hblank⟩ := h
  exact ⟨c, keeps c hc (isSpace_of_not_isBlank hblank), hblank⟩

theorem HasInk.not_blank (h : HasInk l.text) : l.isBlank = false := by
  obtain ⟨c, hc, hblank⟩ := h
  rw [Bool.eq_false_iff]
  intro hall
  have hspace := List.all_eq_true.mp hall c hc
  rw [isSpace_of_not_isBlank hblank] at hspace
  cases hspace

theorem HasInk.inked (h : HasInk s) {lines : List Chars} (hs : s ∈ lines) : Inked lines := by
  obtain ⟨c, hc, hblank⟩ := h
  exact ⟨s, hs, c, hc, isLineSpace_of_not_isBlank hblank⟩

theorem HasInk.content (h : HasInk l.text) : HasInk l.content := by
  refine h.mono fun c hc hspace => ?_
  rw [← List.takeWhile_append_dropWhile (p := isSpace) (l := l.text)] at hc
  obtain hc | hc := List.mem_append.mp hc
  · rw [List.all_eq_true.mp List.all_takeWhile c hc] at hspace
    cases hspace
  · exact hc

theorem mem_dropFrom (hc : c ∈ s) (space : isSpace c = false) (count column : Nat) :
    c ∈ (Line.dropFrom count column s).text := by
  induction s generalizing count column with
  | nil => cases hc
  | cons d s ih =>
    have hmem : isSpace d → c ∈ s := by
      intro hd
      refine (List.mem_cons.mp hc).resolve_left ?_
      rintro rfl
      rw [hd] at space
      cases space
    rw [Line.dropFrom]
    split
    · exact hc
    · split
      · rename_i hd
        exact ih (hmem (by simp [isSpace, hd])) _ _
      · split
        · rename_i hd
          have hs := hmem (by simp [isSpace, hd])
          dsimp only
          split
          · exact ih hs _ _
          · exact List.mem_append_right _ hs
        · exact hc

theorem HasInk.within (h : HasInk l.text) (hrest : (Layer.item width).rest? l = some rest) :
    HasInk rest.text := by
  rw [Layer.rest?, h.not_blank] at hrest
  obtain ⟨-, hdrop⟩ := Option.ite_none_right_eq_some.mp hrest
  obtain rfl := Option.some.inj hdrop
  exact h.mono fun c hc space => mem_dropFrom hc space _ _

/-- If a paragraph is open, there is ink in its last line. -/
def Tip.InkEnd (tip : Tip) : Prop :=
  ∀ lines, tip = .paragraph lines → ∃ before s, lines = before ++ [s] ∧ HasInk s

theorem Tip.InkEnd.inked {lines : List Chars} (h : (Tip.paragraph lines).InkEnd) :
    Tip.lastLines true lines = lines ∧ Inked lines := by
  obtain ⟨before, s, rfl, hink⟩ := h lines rfl
  refine ⟨?_, hink.inked (by simp)⟩
  obtain ⟨c, hc, hblank⟩ := hink
  have hall : s.all Text.isBlank = false := by
    rw [Bool.eq_false_iff]
    intro hall
    rw [List.all_eq_true.mp hall c hc] at hblank
    cases hblank
  simp [Tip.lastLines, hall]

theorem inkEnd_of_other (h : ∀ lines, tip ≠ .paragraph lines) : tip.InkEnd :=
  fun lines hlines => absurd hlines (h lines)

theorem inkEnd_append (before : List Chars) (ink : HasInk s) :
    (Tip.paragraph (before ++ [s])).InkEnd := by
  rintro _ ⟨⟩
  exact ⟨before, s, rfl, ink⟩

theorem inkEnd_start (levels : Nat) (o : Outlook) (s : Start) (l : Line) :
    (Tip.start (levels + 1) o s l).tip.InkEnd := by
  cases s with
  | quote rest | heading level text | fence f | thematicBreak | indentedCode =>
    simp only [Tip.start]
    exact inkEnd_of_other (by simp [Growth.inQuote, Growth.leaf, Growth.keep])
  | html kind =>
    simp only [Tip.start]
    rw [Tip.addHtml]
    split <;> exact inkEnd_of_other (by simp [Growth.leaf, Growth.keep])
  | item i =>
    obtain ⟨done, inner, hstart⟩ := exists_start_item levels o i l
    rw [hstart]
    exact inkEnd_of_other (by simp [Growth.keep])

theorem inkEnd_freshText (nests : Bool) (o : Outlook) (ink : HasInk l.text) :
    (Tip.freshText nests o l).tip.InkEnd := by
  rw [Tip.freshText]
  split
  · dsimp only
    split
    · exact inkEnd_of_other (by simp)
    · exact inkEnd_append [] ink.content
  · exact inkEnd_append [] ink.content

theorem inkEnd_fresh (levels : Nat) (o : Outlook) (ink : HasInk l.text) :
    (Tip.fresh (levels + 1) o l).tip.InkEnd := by
  rw [Tip.fresh, Tip.freshBy, ink.not_blank]
  simp only [Bool.false_eq_true, if_false]
  split
  · exact inkEnd_start _ _ _ _
  · exact inkEnd_freshText _ _ ink

theorem inkEnd_extend (levels : Nat) (o : Outlook) (ink : HasInk l.text) (tip : Tip) :
    (tip.extend (levels + 1) o l).tip.InkEnd := by
  cases tip with
  | defined pending =>
    cases pending with
    | zero => exact inkEnd_freshText _ _ ink
    | succ pending => exact inkEnd_of_other (by simp [Tip.extend, Growth.keep])
  | paragraph lines => exact inkEnd_append lines ink
  | idle | fenced _ _ | indented _ | html _ _ | quote _ _ | list _ _ | item _ _ _ _ _ =>
    exact inkEnd_of_other (by simp [Tip.extend, Growth.keep, Growth.inQuote, Growth.inItem])

theorem inkEnd_leave (levels : Nat) (o : Outlook) (ink : HasInk l.text) (tip : Tip) :
    (tip.leave (levels + 1) o l).tip.InkEnd := by
  rw [Tip.leave, ink.not_blank]
  simp only [Bool.false_eq_true, if_false]
  split
  · exact inkEnd_start _ _ _ _
  · split
    · exact inkEnd_extend levels o ink tip
    · exact inkEnd_freshText _ _ ink

theorem inkEnd_leaveItem (levels : Nat) (o : Outlook) (marker : Marker)
    (items : List (List Block)) (ink : HasInk l.text) (tip : Tip) :
    (tip.leaveItem (levels + 1) o marker items l).tip.InkEnd := by
  rw [Tip.leaveItem]
  split
  · rename_i i _
    split
    · obtain ⟨done, inner, hstart⟩ := exists_start_item levels o i l
      rw [hstart]
      exact inkEnd_of_other (by simp [Growth.keep, Tip.joinList])
    · exact inkEnd_leave levels o ink tip
  · exact inkEnd_leave levels o ink tip

theorem inkEnd_advance (levels : Nat) (o : Outlook) (ink : HasInk l.text) (tip : Tip) :
    (tip.advance (levels + 1) o l).tip.InkEnd := by
  cases tip with
  | idle => exact inkEnd_fresh levels o ink
  | defined pending =>
    cases pending with
    | zero => exact inkEnd_fresh levels o ink
    | succ pending => exact inkEnd_of_other (by simp [Tip.advance, Growth.keep])
  | paragraph lines =>
    rw [Tip.advance, ink.not_blank]
    simp only [Bool.false_eq_true, if_false]
    split
    · exact inkEnd_of_other (by simp [Growth.leaf])
    · split
      · exact inkEnd_start _ _ _ _
      · exact inkEnd_append lines ink
  | fenced f lines =>
    rw [Tip.advance]
    split <;> exact inkEnd_of_other (by simp [Growth.leaf, Growth.keep])
  | indented lines =>
    rw [Tip.advance]
    split
    · exact inkEnd_of_other (by simp [Growth.keep])
    · exact inkEnd_fresh levels o ink
  | html kind lines =>
    rw [Tip.advance]
    split
    · exact inkEnd_of_other (by simp)
    · rw [Tip.addHtml]
      split <;> exact inkEnd_of_other (by simp [Growth.leaf, Growth.keep])
  | quote held inner =>
    rw [Tip.advance]
    split
    · exact inkEnd_of_other (by simp [Growth.keep, Growth.inQuote])
    · exact inkEnd_leave levels o ink _
  | list marker items =>
    rw [Tip.advance, ink.not_blank]
    exact inkEnd_leaveItem levels o marker items ink _
  | item marker items width held inner =>
    rw [Tip.advance]
    split
    · exact inkEnd_of_other (by simp [Growth.keep])
    · split
      · exact inkEnd_of_other (by simp [Growth.keep, Growth.inItem])
      · exact inkEnd_leaveItem levels o marker _ ink _

theorem inkEnd_within (ink : HasInk l.text) (h : g.within? (levels + 1) width later l = some g') :
    g'.tip.InkEnd := by
  unfold Growth.within? at h
  dsimp only at h
  split at h
  · rename_i hrest
    obtain rfl := Option.some.inj h
    exact inkEnd_advance levels _ (ink.within hrest) _
  · obtain ⟨-, hextend⟩ := Option.ite_none_right_eq_some.mp h
    obtain rfl := Option.some.inj hextend
    exact inkEnd_extend levels _ ink _

theorem allWithin?_append (g : Growth) (ls ms : List Line) :
    g.allWithin? levels width later (ls ++ ms) =
      (g.allWithin? levels width (ms ++ later) ls).bind fun g =>
      g.allWithin? levels width later ms := by
  induction ls generalizing g with
  | nil => rfl
  | cons l ls ih =>
    rw [List.cons_append, Growth.allWithin?, Growth.allWithin?, List.append_assoc]
    cases g.within? levels width (ls ++ (ms ++ later)) l with
    | none => rfl
    | some step => exact ih step

theorem inkEnd_allWithin (ink : HasInk last.text)
    (h : g.allWithin? (levels + 1) width later (ls ++ [last]) = some g') : g'.tip.InkEnd := by
  rw [allWithin?_append] at h
  obtain ⟨step, -, hlast⟩ := Option.bind_eq_some_iff.mp h
  obtain ⟨final, hfinal, hnil⟩ := Option.bind_eq_some_iff.mp hlast
  cases hnil
  exact inkEnd_within ink hfinal

theorem solids_paragraph {lines : List Chars} (h : (Tip.paragraph lines).InkEnd) :
    0 < solids ((Growth.keep (.paragraph lines)).blocks true) := by
  obtain ⟨hlast, hink⟩ := h.inked
  rw [Growth.blocks, Growth.keep, List.nil_append, Tip.closeIn, hlast,
    paragraphBlocks_of_inked hink]
  exact Nat.one_pos

theorem solids_after (h : 0 < solids (g.blocks true)) (bs : List Block) :
    0 < solids ((g.after bs).blocks true) := by
  have hblocks : (g.after bs).blocks true = bs ++ g.blocks true := List.append_assoc _ _ _
  rw [hblocks, solids_append]
  exact Nat.add_pos_right _ h

theorem solids_fresh (levels : Nat) (o : Outlook) (ink : HasInk l.text) :
    0 < solids ((Tip.fresh levels o l).blocks true) := by
  have hkeep := solids_paragraph (inkEnd_append [] ink.content)
  rw [Tip.fresh, Tip.freshBy, ink.not_blank]
  simp only [Bool.false_eq_true, if_false]
  split
  · rename_i s hfind
    cases levels with
    | zero =>
      -- what begins where nothing nests does not look at the levels
      obtain ⟨hquote, hitem⟩ := find?_unnested hfind
      have hstart : Tip.start 0 o s l = Tip.start 1 o s l := by
        cases s with
        | quote rest => exact absurd rfl (hquote rest)
        | item i => exact absurd rfl (hitem i)
        | heading _ _ | fence _ | html _ | thematicBreak | indentedCode => simp only [Tip.start]
      rw [hstart]
      exact solids_start _ _ _ _ _
    | succ levels => exact solids_start _ _ _ _ _
  · rw [Tip.freshText]
    split
    · dsimp only
      split
      · exact Nat.one_pos
      · exact hkeep
    · exact hkeep

/-- A line with ink leaves a block, unless a definition takes it in. -/
theorem solids_advance (levels : Nat) (o : Outlook)
    (ink : HasInk l.text) (free : ∀ pending, tip ≠ .defined pending) :
    0 < solids ((tip.advance (levels + 1) o l).blocks true) := by
  have hlasts := (outgrown_advance true (levels + 1) o tip l).count
  cases tip with
  | defined pending => exact absurd rfl (free pending)
  | idle => exact solids_fresh (levels + 1) o ink
  | paragraph lines =>
    rw [Tip.advance, ink.not_blank]
    simp only [Bool.false_eq_true, if_false]
    split
    · rename_i b hunderline
      obtain ⟨level, -, hheading⟩ := Option.bind_eq_some_iff.mp hunderline
      obtain rfl := Option.some.inj (Option.ite_none_left_eq_some.mp hheading).2
      exact Nat.one_pos
    · split
      · exact solids_after (solids_start _ _ _ _ _) _
      · exact solids_paragraph (inkEnd_append lines ink)
  | fenced _ _ | indented _ | html _ _ =>
    refine Nat.lt_of_lt_of_le ?_ hlasts
    exact List.countP_pos_iff.mpr ⟨_, List.mem_cons_self, rfl⟩
  | quote _ _ | list _ _ | item _ _ _ _ _ => exact Nat.lt_of_lt_of_le Nat.one_pos hlasts

theorem solids_extend (levels : Nat) (o : Outlook) (ink : HasInk l.text)
    (going : tip.endsInParagraph) (free : ∀ pending, tip ≠ .defined pending) :
    0 < solids ((tip.extend levels o l).blocks true) := by
  have hlasts := (outgrown_extend true levels o l tip).count
  cases tip with
  | defined pending => exact absurd rfl (free pending)
  | paragraph lines => exact solids_paragraph (inkEnd_append lines ink)
  | quote _ _ | item _ _ _ _ _ => exact Nat.lt_of_lt_of_le Nat.one_pos hlasts
  | idle | fenced _ _ | indented _ | html _ _ | list _ _ => cases going

theorem ne_defined_of_backed {bs : List Block} {inItem : Bool} (backed : tip.Backed bs)
    (plain : ∀ d, Block.definition d ∉ bs ++ tip.closeIn inItem) (pending : Nat) :
    tip ≠ .defined pending := by
  rintro rfl
  obtain ⟨d, hd⟩ := backed
  exact plain d (List.mem_append_left _ hd)

/-- Where a block is closed, one more line with ink leaves a second one. -/
theorem two_solids_within (ink : HasInk l.text) (filled : 0 < solids g.closed)
    (free : ∀ pending, g.tip ≠ .defined pending)
    (h : g.within? (levels + 1) width later l = some g') : 2 ≤ solids (g'.blocks true) := by
  have hafter : ∀ step : Growth, 0 < solids (step.blocks true) →
      2 ≤ solids ((step.after g.closed).blocks true) := by
    intro step hstep
    have hblocks : (step.after g.closed).blocks true = g.closed ++ step.blocks true :=
      List.append_assoc _ _ _
    rw [hblocks, solids_append]
    exact Nat.add_le_add filled hstep
  unfold Growth.within? at h
  dsimp only at h
  split at h
  · rename_i hrest
    obtain rfl := Option.some.inj h
    exact hafter _ (solids_advance levels _ (ink.within hrest) free)
  · obtain ⟨hlazy, hextend⟩ := Option.ite_none_right_eq_some.mp h
    obtain rfl := Option.some.inj hextend
    exact hafter _ (solids_extend _ _ ink (Bool.and_eq_true_iff.mp hlazy).1 free)

theorem closed_within (h : g.within? levels width later l = some g') :
    ∃ bs, g'.closed = g.closed ++ bs := by
  unfold Growth.within? at h
  dsimp only at h
  split at h
  · obtain rfl := Option.some.inj h
    exact ⟨_, rfl⟩
  · obtain ⟨-, hextend⟩ := Option.ite_none_right_eq_some.mp h
    obtain rfl := Option.some.inj hextend
    exact ⟨_, rfl⟩

/-- Where a block is closed, more lines leave a second one if there is ink in the last of them. -/
theorem two_solids_allWithin (ink : HasInk last.text)
    (filled : 0 < solids g.closed) (backed : g.tip.Backed g.closed)
    (h : g.allWithin? (levels + 1) width later (ls ++ [last]) = some g')
    (plain : ∀ d, Block.definition d ∉ g'.blocks true) : 2 ≤ solids (g'.blocks true) := by
  have hnone : ∀ {ms : List Line} {g : Growth}, g.allWithin? (levels + 1) width later ms = some g' →
      ∀ d, Block.definition d ∉ g.blocks true := by
    intro ms g hrest d hd
    obtain ⟨c, hc, hgrows⟩ := (outgrown_allWithin hrest).grows _ hd rfl
    cases hgrows
    exact plain d hc
  induction ls generalizing g with
  | nil =>
    have hfree := ne_defined_of_backed backed (hnone h)
    obtain ⟨final, hfinal, hnil⟩ := Option.bind_eq_some_iff.mp h
    cases hnil
    exact two_solids_within ink filled hfree hfinal
  | cons l ls ih =>
    obtain ⟨step, hstep, hrest⟩ := Option.bind_eq_some_iff.mp h
    obtain ⟨bs, hbs⟩ := closed_within hstep
    refine ih ?_ (backed_within hstep backed) hrest
    rw [hbs, solids_append]
    exact Nat.add_pos_left filled _

/-- In an open fence, a line closes it or is added, whatever is ahead. -/
theorem within_fenced {f : Fence} {lines : List Chars}
    (h : (Growth.mk [] (.fenced f lines)).within? levels width later l = some g') :
    (∀ later', (Growth.mk [] (.fenced f lines)).within? levels width later' l = some g') ∧
      (g' = ⟨[Tip.fencedBlock f lines], .idle⟩ ∨ ∃ rest, (Layer.item width).rest? l = some rest ∧
        g' = ⟨[], .fenced f (lines ++ [(rest.dropIndent f.indent).text])⟩) := by
  unfold Growth.within? at h ⊢
  dsimp only at h ⊢
  split at h
  · rename_i rest hrest
    obtain rfl := Option.some.inj h
    refine ⟨fun _ => by rw [Tip.advance, Tip.advance], ?_⟩
    rw [Tip.advance]
    split
    · exact .inl rfl
    · exact .inr ⟨rest, hrest, rfl⟩
  · cases (Option.ite_none_right_eq_some.mp h).2
    cases (Bool.and_eq_true_iff.mp (Option.ite_none_right_eq_some.mp h).1).1

/-- A fence that is the only block is closed by the last line, or that line is the last one in it;
what is ahead makes no difference. -/
theorem allWithin_fenced {f : Fence} {lines : List Chars} (ink : HasInk last.text)
    (h : (Growth.mk [] (.fenced f lines)).allWithin? (levels + 1) width later (ls ++ [last]) =
      some g') (plain : ∀ d, Block.definition d ∉ g'.blocks true)
    (single : solids (g'.blocks true) ≤ 1) :
    (∀ later', (Growth.mk [] (.fenced f lines)).allWithin?
      (levels + 1) width later' (ls ++ [last]) = some g') ∧
      (g'.tip = .idle ∨ ∃ lines rest, (Layer.item width).rest? last = some rest ∧
        g'.tip = .fenced f (lines ++ [(rest.dropIndent f.indent).text])) := by
  induction ls generalizing lines with
  | nil =>
    obtain ⟨final, hfinal, hnil⟩ := Option.bind_eq_some_iff.mp h
    cases hnil
    obtain ⟨hsame, hends⟩ := within_fenced hfinal
    refine ⟨fun later' => ?_, ?_⟩
    · rw [List.nil_append, Growth.allWithin?, hsame]
      rfl
    · obtain rfl | ⟨rest, hrest, rfl⟩ := hends
      · exact .inl rfl
      · exact .inr ⟨lines, rest, hrest, rfl⟩
  | cons l ls ih =>
    obtain ⟨step, hstep, hrest⟩ := Option.bind_eq_some_iff.mp h
    obtain ⟨hsame, hends⟩ := within_fenced hstep
    obtain rfl | ⟨rest, -, rfl⟩ := hends
    · have hfilled : 0 < solids (Growth.leaf (Tip.fencedBlock f lines)).closed := Nat.one_pos
      have htwo := two_solids_allWithin ink hfilled trivial hrest plain
      omega
    · obtain ⟨hsames, htip⟩ := ih hrest
      refine ⟨fun later' => ?_, htip⟩
      rw [List.cons_append, Growth.allWithin?, hsame]
      exact hsames later'

end Canonmark.Markdown
