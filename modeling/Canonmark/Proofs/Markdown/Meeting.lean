import Canonmark.Proofs.Markdown.OneItem

/-! How the lines of two blocks in one item meet. -/
namespace Canonmark.Markdown

variable {levels : Nat} {c : Char} {cs : Chars} {s : Start} {g gA gB : Growth}
    {later ls : List Line} {bs : List Block} {first : Line}

/-- The line of a text that is indented like the text after a marker. -/
def indentedLine (text : Chars) : Line := { text := ' ' :: ' ' :: text }

theorem rest?_indentedLine (space : isSpace c = false) :
    (Layer.item 2).rest? (indentedLine (c :: cs)) = some (inItem (c :: cs)) :=
  rest?_replicate space 2 0

theorem taken?_blank (nests : Bool) (layers : List Layer) {l : Line} (blank : l.isBlank) :
    Outlook.taken? nests layers l = none := by
  induction layers generalizing l with
  | nil => simp [Outlook.taken?, blank]
  | cons layer layers ih =>
    rw [Outlook.taken?]
    cases layer with
    | quote => simp [Layer.rest?, quoteRest?_blank blank, blank]
    | item width =>
      rw [Layer.rest?, blank, if_pos rfl]
      exact ih rfl

/-- A line that begins a block is not taken for one of a paragraph, unless it cannot interrupt one
or goes on with a quote. -/
theorem untaken_indentedLine {only : Option Kind} (space : isSpace c = false)
    (begins : Start.find? .free true (inItem (c :: cs)) = some s) (breaks : s.Breaks .lazy)
    (text : (∀ k ∈ only, k = .paragraph ∨ k = .heading) → s.Breaks .paragraph)
    (quoted : (∀ k ∈ only, k = .blockQuote) → Start.quoteRest? (inItem (c :: cs)) = none) :
    (indentedLine (c :: cs)).Untaken (levels + 1) 2 only := by
  intro layers nests reachable
  rw [Outlook.taken?, rest?_indentedLine space]
  cases layers with
  | nil =>
    obtain rfl : nests = true := reachable.here rfl
    simp [Outlook.taken?, find?_of_free begins (text (reachable.text rfl))]
  | cons layer layers =>
    have hrest : layer.rest? (inItem (c :: cs)) = none := by
      cases layer with
      | quote => exact quoted (reachable.quoted rfl)
      | item width =>
        have hwidth : width ≠ 0 := fun h => reachable.wide _ List.mem_cons_self (h ▸ rfl)
        exact rest?_of_head space (Nat.pos_of_ne_zero hwidth) 2
    dsimp only
    rw [Outlook.taken?, hrest]
    simp [find?_of_free begins breaks]

theorem solids_eq_length (plain : ∀ d, Block.definition d ∉ bs) :
    solids bs = (kindsOf bs).length := by
  induction bs with
  | nil => rfl
  | cons b bs ih =>
    obtain ⟨hb, hbs⟩ : (∀ d, b ≠ .definition d) ∧ ∀ d, Block.definition d ∉ bs := by
      simp only [List.mem_cons, not_or] at plain
      exact ⟨fun d hd => (plain d).1 hd.symm, fun d => (plain d).2⟩
    have hone : solids [b] = (kindsOf [b]).length := by
      cases b with
      | definition d => exact absurd rfl (hb d)
      | _ => rfl
    rw [← List.singleton_append, solids_append, kindsOf_append, List.length_append, hone, ih hbs]

theorem leads_of_kinds {k : Kind} (single : kindsOf (g.blocks true) = [k])
    (plain : ∀ d, Block.definition d ∉ g.blocks true) : g.Leads (some k) := by
  rintro _ ⟨⟩ b hb hsolid
  refine ⟨b, .refl b, ?_⟩
  cases hkind : b.kind? with
  | none =>
    cases b with
    | definition d => exact absurd hb (plain d)
    | blank => cases hsolid
    | _ => cases hkind
  | some k' =>
    have hmem : k' ∈ kindsOf (g.blocks true) := List.mem_filterMap.mpr ⟨b, hb, hkind⟩
    rw [single] at hmem
    rw [List.mem_singleton.mp hmem]

/-- What comes after a line that no paragraph takes makes no difference before it. -/
theorem itemGrowth?_congr {only : Option Kind} {m : Line} (h : m.Untaken (levels + 1) 2 only)
    (growth : first.itemGrowth? (levels + 1) [] ls = some g) (leads : g.Leads only)
    (later : List Line) : first.itemGrowth? (levels + 1) (m :: later) ls = some g := by
  rw [Line.itemGrowth?, List.append_nil] at growth
  have hfresh :=
    fresh_congr (h.alike ls later) first (leads.of_outgrown (outgrown_allWithin growth))
  have hbacked := backed_fresh (levels + 1) { layers := [.item 2], later := ls } first []
  rw [Line.itemGrowth?, ← hfresh]
  exact allWithin?_congr h hbacked growth leads later

/-- Blocks that stand for the same classes inside and outside of an item. -/
theorem kindsOf_close {tip : Tip} (ink : tip.InkEnd) :
    kindsOf tip.close = kindsOf (tip.closeIn true) := by
  cases tip with
  | paragraph lines =>
    rw [Tip.closeIn, ink.inked.1]
    rfl
  | fenced _ lines | indented lines | html _ lines =>
    exact (kindsOf_cons_blankEnd _ lines).trans (kindsOf_cons_blankEnd _ lines).symm
  | idle | defined _ | quote _ _ | list _ _ | item _ _ _ _ _ => rfl

variable (levels gA) in
/-- After the lines of a block, a line that parts from it begins the next one. -/
theorem meet_tight (space : isSpace c = false) (parts : gA.tip.Parts (inItem (c :: cs)))
    (later : List Line) :
    gA.allWithin? (levels + 1) 2 later [indentedLine (c :: cs)] =
      some ((Tip.fresh (levels + 1) { layers := [.item 2], later } (inItem (c :: cs))).after
        (gA.closed ++ gA.tip.close)) := by
  have hadvance := parts.advance levels space { layers := [.item 2], later }
  have hstep : gA.within? (levels + 1) 2 later (indentedLine (c :: cs)) = some ((gA.tip.advance
        (levels + 1) { layers := [.item 2], later } (inItem (c :: cs))).after gA.closed) := by
    rw [Growth.within?, rest?_indentedLine space]
  rw [Growth.allWithin?, List.nil_append, hstep]
  exact congrArg
    some ((congrArg (Growth.after · gA.closed) hadvance).trans (Growth.after_after _ _ _))

variable (levels) in
/-- After the lines of a block and a blank line, the next line begins a block, unless lists meet. -/
theorem meet_loose (space : isSpace c = false) (free : gA.tip.Free) (ends : gA.tip.EndsAtBlankLine)
    (ink : gA.tip.InkEnd)
    (wide : ∀ marker items width held inner,
      gA.tip = .item marker items width held inner → 0 < width)
    (other : (∃ marker items, gA.tip.close = [.list marker items]) →
      ∀ i, Start.find? .free true (inItem (c :: cs)) ≠ some (.item i)) (later : List Line) :
    ∃ before, kindsOf before = kindsOf (gA.blocks true) ∧
      gA.allWithin? (levels + 1) 2 later [{ text := [] }, indentedLine (c :: cs)] =
        some ((Tip.fresh (levels + 1) { layers := [.item 2], later } (inItem (c :: cs))).after
          before) := by
  have hblank : (Line.mk 0 []).isBlank := rfl
  obtain ⟨hparts, hkinds⟩ := advance_blank free ends hblank wide other (levels + 1)
    { layers := [.item 2], later := indentedLine (c :: cs) :: later }
  have hstep : gA.within? (levels + 1) 2 (indentedLine (c :: cs) :: later) { text := [] } = some
    ((gA.tip.advance (levels + 1) { layers := [.item 2], later := indentedLine (c :: cs) :: later }
        { text := [] }).after gA.closed) := by
    rw [Growth.within?, Layer.rest?, hblank]
    rfl
  refine ⟨_, ?_, Eq.trans ?_ (meet_tight levels (.after _ gA.closed) space hparts later)⟩
  · rw [Growth.after, List.append_assoc, kindsOf_append, hkinds, kindsOf_close ink, Growth.blocks,
      kindsOf_append]
  · rw [Growth.allWithin?, List.singleton_append, hstep]
    rfl

/-- Where the lines of two blocks meet, an item with both is read as one after the other. -/
theorem itemGrowth?_meet {sep la lb : List Line}
    (hA : first.itemGrowth? levels (sep ++ indentedLine (c :: cs) :: lb) la = some gA)
    {before : List Block} (meets : gA.allWithin? levels 2 lb (sep ++ [indentedLine (c :: cs)]) =
      some
      ((Tip.fresh levels { layers := [.item 2], later := lb } (inItem (c :: cs))).after before))
    (hB : (inItem (c :: cs)).itemGrowth? levels [] lb = some gB) :
    first.itemGrowth? levels []
      (la ++ (sep ++ indentedLine (c :: cs) :: lb)) = some (gB.after before) := by
  rw [Line.itemGrowth?, List.append_nil] at hB
  rw [Line.itemGrowth?] at hA ⊢
  rw [List.append_nil, allWithin?_append, List.append_nil, hA, Option.bind_some, List.append_cons,
    allWithin?_append, List.append_nil, meets, Option.bind_some, allWithin?_after, hB]
  rfl

/-- The lines of an item which leave one block in it, of the class `k`; there is ink at both
ends. -/
structure IsAlone (levels : Nat) (c : Char) (cs : Chars) (ls : List Line) (k : Kind)
    (g : Growth) : Prop where
  ink : Text.isBlank c = false
  last : ls = [] ∨ ∃ before last, ls = before ++ [last] ∧ HasInk last.text
  growth : (inItem (c :: cs)).itemGrowth? (levels + 1) [] ls = some g
  kinds : kindsOf (g.blocks true) = [k]
  plain : Block.definitionsOf (g.blocks true) = []

namespace IsAlone

variable {k : Kind}

theorem space (h : IsAlone levels c cs ls k g) : isSpace c = false := isSpace_of_not_isBlank h.ink

theorem hasInk (h : IsAlone levels c cs ls k g) : HasInk (inItem (c :: cs)).text :=
  ⟨c, List.mem_cons_self, h.ink⟩

theorem not_definition (h : IsAlone levels c cs ls k g) (d : Definition) :
    Block.definition d ∉ g.blocks true :=
  fun hd => definitionsOf_ne_nil hd h.plain

theorem leads (h : IsAlone levels c cs ls k g) : g.Leads (some k) :=
  leads_of_kinds h.kinds h.not_definition

theorem backed (h : IsAlone levels c cs ls k g) : g.tip.Backed g.closed :=
  backed_allWithin h.growth (backed_fresh _ _ _ [])

theorem free (h : IsAlone levels c cs ls k g) : g.tip.Free := free_of_backed h.backed h.plain

theorem inkEnd (h : IsAlone levels c cs ls k g) : g.tip.InkEnd := by
  obtain rfl | ⟨before, last, rfl, ink⟩ := h.last
  · obtain rfl := Option.some.inj h.growth
    exact inkEnd_fresh _ _ h.hasInk
  · exact inkEnd_allWithin ink h.growth

theorem wide (h : IsAlone levels c cs ls k g) (marker : Marker)
    (items : List (List Block)) (width : Nat) (held : List Block) (inner : Tip)
    (htip : g.tip = .item marker items width held inner) : 0 < width := by
  have hbacked := h.backed
  rw [htip] at hbacked
  exact hbacked.1

theorem solids_eq_one (h : IsAlone levels c cs ls k g) : solids (g.blocks true) = 1 := by
  rw [solids_eq_length h.not_definition, h.kinds]
  rfl

/-- A block that its first line closes has no other. -/
theorem eq_leaf (h : IsAlone levels c cs ls k g)
    (begins : Start.find? .free true (inItem (c :: cs)) = some s)
    {b : Block} (hb : b.isBlank = false)
    (closes : ∀ o, Tip.start (levels + 1) o s (inItem (c :: cs)) = .leaf b) :
    ls = [] ∧ g = .leaf b := by
  have hgrowth := h.growth
  rw [Line.itemGrowth?, fresh_of_find? h.hasInk begins, closes] at hgrowth
  obtain rfl | ⟨before, last, rfl, ink⟩ := h.last
  · exact ⟨rfl, (Option.some.inj hgrowth).symm⟩
  · have hfilled : 0 < solids (Growth.leaf b).closed :=
      List.countP_pos_iff.mpr ⟨b, List.mem_cons_self, by simp [hb]⟩
    have htwo := two_solids_allWithin ink hfilled trivial hgrowth h.not_definition
    rw [h.solids_eq_one] at htwo
    omega

/-- The class of what the tip closes to is that of the block. -/
theorem kind_of_close (h : IsAlone levels c cs ls k g) {b : Block} {k' : Kind}
    (hb : b ∈ g.tip.close) (hkind : b.kind? = some k') : k' = k := by
  have hmem : k' ∈ kindsOf g.tip.close := List.mem_filterMap.mpr ⟨b, hb, hkind⟩
  rw [kindsOf_close h.inkEnd] at hmem
  have hall : k' ∈ kindsOf (g.blocks true) := by
    rw [Growth.blocks, kindsOf_append]
    exact List.mem_append_right _ hmem
  rw [h.kinds] at hall
  exact List.mem_singleton.mp hall

theorem kind_of_tip (h : IsAlone levels c cs ls k g) {tip : Tip} (htip : g.tip = tip) {b : Block}
    {k' : Kind} (hb : b ∈ tip.close) (hkind : b.kind? = some k') : k = k' :=
  (h.kind_of_close (htip ▸ hb) hkind).symm

/-- Unless its block is a list, the first line of an item begins no item. -/
theorem not_item (h : IsAlone levels c cs ls k g) (other : k ≠ .list) (i : ItemStart) :
    Start.find? .free true (inItem (c :: cs)) ≠ some (.item i) :=
  fun hfind => other (kind_of_find? h.hasInk h.growth h.kinds hfind).symm

theorem quoteRest?_eq_none (h : IsAlone levels c cs ls k g) (other : k ≠ .blockQuote) :
    Start.quoteRest? (inItem (c :: cs)) = none := by
  have hflush : (inItem (c :: cs)).isIndented = false := isIndented_of_head h.space 2
  rw [Option.eq_none_iff_forall_ne_some]
  rintro rest hquote
  exact absurd
    (kind_of_find? h.hasInk h.growth h.kinds (find?_of_quoteRest? hflush hquote)).symm other

end IsAlone

variable {kA kB : Kind} {cA cB : Char} {csA csB : Chars} {la lb : List Line}

/-- Two blocks with a blank line between them are read apart, unless they are lists. -/
theorem meets_loose (hA : IsAlone levels cA csA la kA gA) (hB : IsAlone levels cB csB lb kB gB)
    (ends : gA.tip.EndsAtBlankLine) (lists : ¬(kA = .list ∧ kB = .list)) :
    ∃ before, kindsOf before = [kA] ∧ (inItem (cA :: csA)).itemGrowth? (levels + 1) []
      (la ++ ([{ text := [] }] ++ indentedLine (cB :: csB) :: lb)) = some (gB.after before) := by
  have huntaken : (Line.mk 0 []).Untaken (levels + 1) 2 (some kA) :=
    fun layers nests _ => taken?_blank nests (.item 2 :: layers) rfl
  have hother : (∃ marker items, gA.tip.close = [.list marker items]) →
      ∀ i, Start.find? .free true (inItem (cB :: csB)) ≠ some (.item i) := by
    rintro ⟨marker, items, hclose⟩
    have hlist : Kind.list = kA := hA.kind_of_close (b := .list marker items) (by simp [hclose]) rfl
    exact hB.not_item fun hkind => lists ⟨hlist.symm, hkind⟩
  obtain ⟨before, hkinds, hmeets⟩ :=
    meet_loose levels hB.space hA.free ends hA.inkEnd hA.wide hother lb
  have hgrowth := itemGrowth?_congr huntaken hA.growth hA.leads (indentedLine (cB :: csB) :: lb)
  exact ⟨before, hkinds.trans hA.kinds, itemGrowth?_meet hgrowth hmeets hB.growth⟩

/-- Two blocks on lines after each other are read apart if the second begins where a paragraph could
go on, unless they are both quotes or both lists. -/
theorem meets_tight (hA : IsAlone levels cA csA la kA gA) (hB : IsAlone levels cB csB lb kB gB)
    (begins : Start.find? .free true (inItem (cB :: csB)) = some s) (breaks : s.Breaks .lazy)
    (text : kA = .paragraph ∨ kA = .heading →
      s.Breaks .paragraph ∧ Start.underline? (inItem (cB :: csB)) = none)
    (quotes : ¬(kA = .blockQuote ∧ kB = .blockQuote)) (lists : ¬(kA = .list ∧ kB = .list))
    (html : kA ≠ .htmlBlock) (shut : ∀ f lines, gA.tip ≠ .fenced f lines) :
    ∃ before, kindsOf before = [kA] ∧ (inItem (cA :: csA)).itemGrowth? (levels + 1) []
      (la ++ ([] ++ indentedLine (cB :: csB) :: lb)) = some (gB.after before) := by
  have huntaken : (indentedLine (cB :: csB)).Untaken (levels + 1) 2 (some kA) :=
    untaken_indentedLine hB.space begins breaks (fun h => (text (h kA rfl)).1)
      fun h => hB.quoteRest?_eq_none fun hkind => quotes ⟨h kA rfl, hkind⟩
  have hparts : gA.tip.Parts (inItem (cB :: csB)) :=
    { breaks := fun _ => ⟨s, begins, breaks⟩
      paragraph := by
        intro lines htip
        have hink := hA.inkEnd
        rw [htip] at hink
        have hclose : Tip.close (.paragraph lines) = [.paragraph (Tip.paragraphText lines)] :=
          paragraphBlocks_of_inked hink.inked.2
        obtain ⟨hbreaks, hunderline⟩ :=
          text (.inl (hA.kind_of_tip htip (hclose ▸ List.mem_cons_self) rfl))
        exact ⟨hunderline, s, begins, hbreaks⟩
      quote := fun held inner htip => hB.quoteRest?_eq_none fun hkind =>
        quotes ⟨hA.kind_of_tip htip List.mem_cons_self rfl, hkind⟩
      list := fun marker items htip => hB.not_item fun hkind =>
        lists ⟨hA.kind_of_tip htip List.mem_cons_self rfl, hkind⟩
      item := fun marker items width held inner htip =>
        ⟨hA.wide _ _ _ _ _ htip, hB.not_item fun hkind =>
        lists ⟨hA.kind_of_tip htip List.mem_cons_self rfl, hkind⟩⟩
      fenced := shut
      html := fun kind lines htip => html (hA.kind_of_tip htip List.mem_cons_self rfl)
      free := by
        intro pending htip
        have hfree := hA.free
        rw [htip] at hfree
        exact hfree }
  have hgrowth := itemGrowth?_congr huntaken hA.growth hA.leads lb
  refine ⟨gA.closed ++ gA.tip.close, ?_,
    itemGrowth?_meet hgrowth (meet_tight levels gA hB.space hparts lb) hB.growth⟩
  rw [kindsOf_append, kindsOf_close hA.inkEnd, ← kindsOf_append]
  exact hA.kinds

/-- A block that leaves nothing open, whatever is ahead, is read apart from any block on the next
line. -/
theorem meets_after (hA : IsAlone levels cA csA la kA gA) (hB : IsAlone levels cB csB lb kB gB)
    (ahead : ∀ later, (inItem (cA :: csA)).itemGrowth? (levels + 1) later la = some gA)
    (idle : gA.tip = .idle) :
    ∃ before, kindsOf before = [kA] ∧
      (inItem (cA :: csA)).itemGrowth? (levels + 1) []
        (la ++ ([] ++ indentedLine (cB :: csB) :: lb)) = some (gB.after before) := by
  have hparts : gA.tip.Parts (inItem (cB :: csB)) := idle ▸ parts_of_idle _
  refine ⟨gA.closed ++ gA.tip.close, ?_,
    itemGrowth?_meet (ahead _) (meet_tight levels gA hB.space hparts lb) hB.growth⟩
  rw [kindsOf_append, kindsOf_close hA.inkEnd, ← kindsOf_append]
  exact hA.kinds

theorem IsAlone.ahead_of_leaf (h : IsAlone levels c cs ls kA g)
    (begins : Start.find? .free true (inItem (c :: cs)) = some s)
    {b : Block} (hb : b.isBlank = false)
    (closes : ∀ o, Tip.start (levels + 1) o s (inItem (c :: cs)) = .leaf b) :
    (∀ later, (inItem (c :: cs)).itemGrowth? (levels + 1) later ls = some g) ∧ g.tip = .idle := by
  obtain ⟨rfl, rfl⟩ := h.eq_leaf begins hb closes
  refine ⟨fun later => ?_, rfl⟩
  rw [Line.itemGrowth?, fresh_of_find? h.hasInk begins, closes]
  rfl

theorem IsAlone.ahead_of_fence (h : IsAlone levels c cs ls kA g) {f : Fence}
    (begins : Start.find? .free true (inItem (c :: cs)) = some (.fence f)) :
    (∀ later, (inItem (c :: cs)).itemGrowth? (levels + 1) later ls = some g) ∧
      (g.tip = .idle ∨ g.tip = .fenced f [] ∧ ls = [] ∨
        ∃ before last lines rest, ls = before ++ [last] ∧
        (Layer.item 2).rest? last = some rest ∧
        g.tip = .fenced f (lines ++ [(rest.dropIndent f.indent).text])) := by
  have hstart : ∀ o, Tip.fresh (levels + 1) o (inItem (c :: cs)) = .keep (.fenced f []) :=
    fun o => fresh_of_find? h.hasInk begins o
  have hgrowth := h.growth
  simp only [Line.itemGrowth?, hstart] at hgrowth ⊢
  obtain rfl | ⟨before, last, rfl, ink⟩ := h.last
  · obtain rfl := Option.some.inj hgrowth
    exact ⟨fun _ => rfl, .inr (.inl ⟨rfl, rfl⟩)⟩
  · obtain ⟨hahead, htip⟩ :=
      allWithin_fenced ink hgrowth h.not_definition (Nat.le_of_eq h.solids_eq_one)
    refine ⟨hahead, htip.imp_right fun hlast => .inr ?_⟩
    obtain ⟨lines, rest, hrest, hlast⟩ := hlast
    exact ⟨before, last, lines, rest, rfl, hrest, hlast⟩

end Canonmark.Markdown
