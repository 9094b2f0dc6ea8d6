import Canonmark.Proofs.Markdown.Blanks
import Canonmark.Proofs.Markdown.OneItem

/-! Lines that are read as the same blocks under any other blocks, in quotes and in items. -/
namespace Canonmark.Markdown

variable {levels width : Nat} {ls ms : List Chars} {l : Chars} {bs cs : List Block}
    {g g' : Growth} {tip : Tip}

/-- A line that is read after a tip as it is read where nothing is open. -/
def Tip.Yields (levels : Nat) (tip : Tip) (l : Chars) : Prop :=
  ∀ o column, tip.advance levels o ⟨column, l⟩ =
    (Tip.idle.advance levels o ⟨column, l⟩).after tip.close

theorem yields_idle (levels : Nat) (l : Chars) : Tip.idle.Yields levels l := fun _ _ => rfl

theorem blocks_after (g : Growth) (bs : List Block) (inItem : Bool) :
    (g.after bs).blocks inItem = bs ++ g.blocks inItem := List.append_assoc _ _ _

/-- Lines are read after what is closed before them. -/
theorem Reads.over (h : Reads levels ⟨[], .idle⟩ (l :: ls) g') (yields : g.tip.Yields levels l) :
    Reads levels g (l :: ls) (g'.after (g.blocks false)) := by
  cases h with
  | @cons _ step _ _ _ advance rest =>
    have hrest := rest.after (g.blocks false)
    rw [Growth.after_after, List.append_nil] at hrest
    have hstep : ∀ o column, g.tip.advance levels o ⟨column, l⟩ = step.after g.tip.close := by
      intro o column
      rw [yields, advance]
    refine .cons hstep ?_
    rwa [Growth.after_after]

/-- The last of the blocks is a list. -/
def EndsInList (bs : List Block) : Prop := ∃ m items, bs.getLast? = some (.list m items)

/-- A line that begins an item where nothing is open. -/
def BeginsItem (l : Chars) : Prop := ∃ column i, Start.find? .free true ⟨column, l⟩ = some (.item i)

/-- A tip that each line closes which begins with a sign; only if a list stands open, the line must
not begin an item. -/
structure Tip.IsShut (levels : Nat) (listed : Prop) (tip : Tip) : Prop where
  shut : tip.endsInParagraph = false
  yields : ∀ c cs, isSpace c = false → (listed → ¬BeginsItem (c :: cs)) →
    tip.Yields levels (c :: cs)

/-- A line that begins a block of the given class wherever it stands, and in a paragraph as well if
it interrupts one. -/
def Begins (levels : Nat) (k : Kind) (interrupting : Prop) (l : Chars) : Prop := ∀ column, ∃ s,
  Start.find? .free (decide (0 < levels)) ⟨column, l⟩ = some s ∧ s.kind = k ∧ s.Breaks .lazy ∧
    (interrupting → s.Breaks .paragraph ∧ Start.underline? ⟨column, l⟩ = none)

/-- A line that closes a block of the given class: any line if the block has an end of its own, and
else one that begins a block of another class. -/
def Closes (levels : Nat) (k : Kind) (l : Chars) : Prop :=
  k ∈ [.heading, .thematicBreak, .codeBlock] ∨ ∃ other ≠ k, Begins levels other (k = .paragraph) l

/-- A tip that is closed by each line that closes a block of the given class. -/
def Tip.GivesWay (levels : Nat) (k : Kind) (tip : Tip) : Prop :=
  ∀ c cs, isSpace c = false → Closes levels k (c :: cs) → tip.Yields levels (c :: cs)

theorem givesWay_idle (levels : Nat) (k : Kind) : Tip.idle.GivesWay levels k :=
  fun _ _ _ _ => yields_idle _ _

theorem givesWay_paragraph (levels : Nat) (lines : List Chars) :
    (Tip.paragraph lines).GivesWay levels .paragraph := by
  rintro c cs hspace (hself | ⟨k, -, hbegins⟩) o column
  · simp at hself
  · obtain ⟨s, hfind, -, -, hinterrupts⟩ := hbegins column
    obtain ⟨hbreaks, hunderline⟩ := hinterrupts rfl
    rw [Tip.advance, Tip.advance, Tip.fresh, Tip.freshBy, isBlank_of_head hspace, hunderline, hfind]
    simp only [Bool.false_eq_true, if_false, Option.bind_none, find?_of_free hfind hbreaks]
    rfl

theorem givesWay_quote (levels : Nat) (held : List Block) (inner : Tip) :
    (Tip.quote held inner).GivesWay (levels + 1) .blockQuote := by
  rintro c cs hspace (hself | ⟨k, hother, hbegins⟩) o column
  · simp at hself
  · obtain ⟨s, hfind, rfl, hbreaks, -⟩ := hbegins column
    rw [decide_eq_true (Nat.succ_pos levels)] at hfind
    have hquote := quoteRest?_of_find? (isIndented_of_head hspace column) hfind hother
    exact Tip.Parts.advance levels hspace {
      breaks := fun _ => ⟨s, hfind, hbreaks⟩
      paragraph := by simp
      quote := by simpa using hquote
      list := by simp
      item := by simp
      fenced := by simp
      html := by simp
      free := by simp } o

theorem givesWay_item (levels : Nat) (m : Marker) (items : List (List Block))
    (wide : 0 < width) (held : List Block) (inner : Tip) :
    (Tip.item m items width held inner).GivesWay (levels + 1) .list := by
  rintro c cs hspace (hself | ⟨k, hother, hbegins⟩) o column
  · simp at hself
  · obtain ⟨s, hfind, rfl, hbreaks, -⟩ := hbegins column
    rw [decide_eq_true (Nat.succ_pos levels)] at hfind
    have hno : ∀ i, Start.find? .free true ⟨column, c :: cs⟩ ≠ some (.item i) := by
      rintro i hitem
      rw [hfind] at hitem
      cases Option.some.inj hitem
      exact hother rfl
    exact Tip.Parts.advance levels hspace {
      breaks := fun _ => ⟨s, hfind, hbreaks⟩
      paragraph := by simp
      quote := by simp
      list := by simp
      item := by
        rintro _ _ _ _ _ ⟨⟩
        exact ⟨wide, hno⟩
      fenced := by simp
      html := by simp
      free := by simp } o

/-- Lines that are read as the given blocks, in an item or not. What closes the last block closes
all that is open; an empty line after them leaves open no more than a list. -/
structure ReadsInto (levels : Nat) (ls : List Chars) (bs : List Block) : Prop where
  ends : ∃ g, Reads levels ⟨[], .idle⟩ ls g ∧ (∀ inItem, g.blocks inItem = bs) ∧
    ∀ b k, bs.getLast? = some b → b.kind? = some k → g.tip.GivesWay levels k
  parts : ∃ g, Reads levels ⟨[], .idle⟩ (ls ++ [[]]) g ∧
    (∀ inItem, g.blocks inItem = Block.thenBlankAll bs) ∧ g.tip.IsShut levels (EndsInList bs)

/-- A block that an empty line ends. -/
theorem readsInto_single {b : Block} {k : Kind} (reads : Reads levels ⟨[], .idle⟩ ls g)
    (blocks : ∀ inItem, g.blocks inItem = [b]) (ends : g.tip.EndsAtBlank levels)
    (kind : b.kind? = some k) (other : k ≠ .list) (way : g.tip.GivesWay levels k) :
    ReadsInto levels ls [b] where
  ends := by
    refine ⟨g, reads, blocks, ?_⟩
    rintro b' k' ⟨⟩ hkind
    obtain rfl := Option.some.inj (kind.symm.trans hkind)
    exact way
  parts := by
    have hother : b.kind? ≠ some .list := by simpa [kind] using other
    refine ⟨_, reads.append (.cons ends (.nil _)), fun inItem => ?_, rfl, fun c cs _ _ =>
      yields_idle _ _⟩
    have hclose : g.closed ++ g.tip.close = [b] := blocks false
    rw [Block.thenBlankAll, Block.thenBlank_of_ne_list hother, blocks_after, Growth.blocks,
      Tip.closeIn, List.append_nil, ← List.append_assoc, hclose]
    rfl

theorem endsInList_append (some : cs ≠ []) : EndsInList (bs ++ cs) ↔ EndsInList cs := by
  rw [EndsInList, EndsInList, List.getLast?_append_of_ne_nil bs some]

/-- Blocks are read under others that the first line closes. -/
theorem ReadsInto.over (h : ReadsInto levels (l :: ms) cs) (some : cs ≠ [])
    (reads : Reads levels ⟨[], .idle⟩ ls g) (blocks : ∀ inItem, g.blocks inItem = bs)
    (yields : g.tip.Yields levels l) : ReadsInto levels (ls ++ l :: ms) (bs ++ cs) where
  ends := by
    obtain ⟨g', hreads, hblocks, hway⟩ := h.ends
    refine ⟨_, reads.append (hreads.over yields), fun inItem => ?_, fun b k hb => ?_⟩
    · rw [blocks_after, blocks, hblocks]
    · rw [List.getLast?_append_of_ne_nil bs some] at hb
      exact hway b k hb
  parts := by
    obtain ⟨g', hreads, hblocks, hshut⟩ := h.parts
    have hover : Reads levels ⟨[], .idle⟩ (ls ++ (l :: ms ++ [[]])) _ :=
      reads.append (hreads.over yields)
    rw [← List.append_assoc] at hover
    refine ⟨_, hover, fun inItem => ?_, hshut.shut, ?_⟩
    · rw [blocks_after, blocks, hblocks, Block.thenBlankAll_append some]
    · rw [endsInList_append some]
      exact hshut.yields

/-- Blocks are read under others with an empty line between, unless two lists meet. -/
theorem ReadsInto.under (h : ReadsInto levels ls bs) {c : Char} {s : Chars}
    (h' : ReadsInto levels ((c :: s) :: ms) cs) (some : cs ≠ []) (space : isSpace c = false)
    (other : EndsInList bs → ¬BeginsItem (c :: s)) :
    ReadsInto levels (ls ++ [] :: (c :: s) :: ms) (Block.thenBlankAll bs ++ cs) := by
  obtain ⟨g, hreads, hblocks, hshut⟩ := h.parts
  have hover := h'.over some hreads hblocks (hshut.yields c s space other)
  rwa [List.append_assoc] at hover

/-- A quote is read as a quote of what is read in it. -/
theorem ReadsInto.quoted (h : ReadsInto levels ls bs) (some : ls ≠ []) :
    ReadsInto (levels + 1) (ls.map Writer.quoteLine) [.quote bs] := by
  obtain ⟨g, hreads, hblocks, -⟩ := h.ends
  refine readsInto_single (hreads.quoted some) (fun inItem => ?_) (endsAtBlank_quote _ _ _) rfl
    (by simp) (givesWay_quote levels _ _)
  rw [← hblocks false]
  rfl

/-- A line that stays as it is when it is indented: white space alone would be left out. -/
def HoldsIndent (l : Chars) : Prop := l = [] ∨ ∃ c ∈ l, isSpace c = false

theorem Growth.Fills.advance (fills : g.Fills) (levels : Nat) (o : Outlook) (l : Line) :
    ((g.tip.advance levels o l).after g.closed).Fills := by
  refine Nat.lt_of_lt_of_le fills ?_
  rw [blocks_after]
  exact ((outgrown_advance true levels o g.tip l).append_left g.closed).count

/-- A line that is indented by the width of an item belongs to it. -/
theorem rest?_hang (steady : HoldsIndent l) (width column : Nat) :
    ∃ column', (Layer.item width).rest? ⟨column, hang width l⟩ = some ⟨column', l⟩ := by
  obtain rfl | ⟨c, hc, hspace⟩ := steady
  · exact ⟨column, rfl⟩
  · have hblank : (Line.mk column (List.replicate width ' ' ++ l)).isBlank = false :=
      List.all_eq_false.mpr ⟨c, List.mem_append_right _ hc, by simp [hspace]⟩
    have hindent : width ≤ (Line.mk column (List.replicate width ' ' ++ l)).indent := by
      have hfrom : ∀ column, width ≤ Line.indentFrom column (List.replicate width ' ' ++ l) := by
        clear hblank
        induction width with
        | zero => exact fun _ => Nat.zero_le _
        | succ width ih =>
          intro column
          rw [List.replicate_succ, List.cons_append, Line.indentFrom, beq_self_eq_true, if_pos rfl,
            Nat.add_comm 1]
          exact Nat.succ_le_succ (ih _)
      exact hfrom column
    rw [hang_of_ne_nil (List.ne_nil_of_mem hc), Layer.rest?, hblank, dropIndent_replicate]
    simp [hindent]

/-- Lines go on in the item that they are indented for. -/
theorem Reads.inItem {m : Marker} {items : List (List Block)} (h : Reads levels g ls g')
    (fills : g.Fills) (steady : ∀ l ∈ ls, HoldsIndent l) (bs : List Block) :
    Reads (levels + 1) ⟨bs, .item m items width g.closed g.tip⟩ (ls.map (hang width))
      ⟨bs, .item m items width g'.closed g'.tip⟩ := by
  induction h with
  | nil g => exact .nil _
  | @cons g step _ l _ advance _ ih =>
    obtain ⟨hl, hls⟩ := List.forall_mem_cons.mp steady
    have hadvance : ∀ o column, (Tip.item m items width g.closed g.tip).advance (levels + 1) o
        ⟨column, hang width l⟩ = step.inItem m items width g.closed := by
      intro o column
      obtain ⟨column', hrest⟩ := rest?_hang hl width column
      rw [Tip.advance, Bool.and_assoc, fills.not_hollow, Bool.and_false, hrest]
      simp only [Bool.false_eq_true, if_false, Nat.add_sub_cancel]
      rw [advance]
    have hfills : (step.after g.closed).Fills := by
      have hnext := fills.advance levels { later := [] } ⟨0, l⟩
      rwa [advance] at hnext
    refine .cons hadvance ?_
    rw [Growth.inItem, Growth.keep, Growth.after, List.append_nil]
    exact ih hfills hls

/-- Lines that can stand in an item of a list, with what they are read as there. -/
structure IsItemContent (sign : Char) (levels : Nat) (ls : List Chars) (g : Growth) : Prop where
  reads : Reads levels ⟨[], .idle⟩ ls g
  first : ∃ l rest, ls = l :: rest ∧ FollowsBullet sign l
  steady : ∀ l ∈ ls, HoldsIndent l

variable {sign : Char} {count i j : Nat} {mark : Nat → Chars} {marker : Nat → Marker}
    {items : List (List Block)}

/-- What the first line of an item begins, and what the others make of it. -/
theorem IsItemContent.exists_step (h : IsItemContent sign levels ls g) :
    ∃ l rest step, ls = l ::
      rest ∧ FollowsBullet sign l ∧ (∀ o column, Tip.idle.advance levels o ⟨column, l⟩ = step) ∧
      ∀ (m : Marker) (items : List (List Block)) (width : Nat), Reads (levels + 1)
        ⟨[], .item m items width step.closed step.tip⟩ (rest.map (hang width))
        ⟨[], .item m items width g.closed g.tip⟩ := by
  obtain ⟨hreads, ⟨l, rest, rfl, hfollows⟩, hsteady⟩ := h
  cases hreads with
  | @cons _ step _ _ _ advance hrest =>
    have hink : HasInk l := by
      obtain ⟨c, cs, rfl, hc⟩ := hfollows.ink
      exact ⟨c, List.mem_cons_self, hc⟩
    have hfills : step.Fills := by
      have hfresh : (Tip.fresh levels { later := [] } ⟨0, l⟩).Fills := fills_fresh hink _ _
      have hstep := advance { later := [] } 0
      rw [Tip.advance] at hstep
      rwa [hstep] at hfresh
    exact ⟨l, rest, step, rfl, hfollows, advance, fun m items width =>
      hrest.inItem hfills (List.forall_mem_cons.mp hsteady).2 []⟩

/-- The lines of the first item of a list. -/
theorem IsMarking.reads_first (h : IsMarking sign count mark marker)
    (hi : i < count) (content : IsItemContent sign levels ls g) :
    Reads (levels + 1) ⟨[], .idle⟩ (markedLines (mark i) ls)
      ⟨[], .item (marker i) [] (mark i).length g.closed g.tip⟩ := by
  obtain ⟨l, rest, step, rfl, hfollows, hstep, hrest⟩ := content.exists_step
  exact .cons (h.advance_idle hi hfollows hstep) (hrest _ _ _)

/-- The lines of an item close the item before it. -/
theorem IsMarking.reads_next (h : IsMarking sign count mark marker)
    (hi : i < count) (content : IsItemContent sign levels ls g')
    (wide : 0 < width) (items : List (List Block)) (g : Growth) :
    Reads (levels + 1) ⟨[], .item (marker j) items width g.closed g.tip⟩ (markedLines (mark i) ls)
      ⟨[], .item (marker j) (items ++ [g.blocks true]) (mark i).length g'.closed g'.tip⟩ := by
  obtain ⟨l, rest, step, rfl, hfollows, hstep, hrest⟩ := content.exists_step
  exact .cons (h.advance_item hi hfollows hstep wide g.closed g.tip) (hrest _ _ _)

theorem IsMarking.length_pos (h : IsMarking sign count mark marker) (i : Nat) :
    0 < (mark i).length := by
  obtain ⟨c, cs, hmark, -⟩ := h.head i
  rw [hmark]
  exact Nat.succ_pos _

/-- From an item on, the rest of a list is read; what its last item is read as stays open. -/
theorem IsMarking.reads_further (h : IsMarking sign count mark marker) {lss : List (List Chars)}
    {bss : List (List Block)} (others : List.Forall₂ (fun ls bs => ∃ g, IsItemContent sign
      levels ls g ∧ g.blocks true = bs) lss bss) (last : IsItemContent sign levels ls g')
    (bounded : i + lss.length < count) (wide : 0 < width) (items : List (List Block)) (g : Growth) :
    ∃ width', 0 < width' ∧ Reads (levels + 1) ⟨[], .item (marker j) items width g.closed g.tip⟩
      (numberedLines mark i (lss ++ [ls])).flatten
      ⟨[], .item (marker j) (items ++ g.blocks true :: bss) width' g'.closed g'.tip⟩ := by
  induction others generalizing i width items g with
  | nil =>
    refine ⟨_, h.length_pos i, ?_⟩
    rw [List.nil_append, numberedLines, numberedLines, List.flatten_singleton]
    exact h.reads_next bounded last wide items g
  | @cons ms bs lss bss hms _ ih =>
    obtain ⟨next, hcontent, rfl⟩ := hms
    have hbounded : i + 1 + lss.length < count := by simp only [List.length_cons] at bounded; omega
    obtain ⟨width', hwide, hrest⟩ := ih hbounded (h.length_pos i) (items ++ [g.blocks true]) next
    refine ⟨width', hwide, ?_⟩
    rw [List.append_assoc] at hrest
    rw [List.cons_append, numberedLines, List.flatten_cons]
    exact (h.reads_next (by omega) hcontent wide items g).append hrest

/-- The lines of a list are read as its items; what its last item is read as stays open. -/
theorem IsMarking.reads_list (h : IsMarking sign count mark marker)
    {lss : List (List Chars)} {bss : List (List Block)} (others :
      List.Forall₂ (fun ls bs => ∃ g, IsItemContent sign levels ls g ∧ g.blocks true = bs) lss bss)
    (last : IsItemContent sign levels ls g) (bounded : i + lss.length < count) :
    ∃ width, 0 < width ∧ Reads (levels + 1) ⟨[], .idle⟩ (numberedLines mark i (lss ++ [ls])).flatten
      ⟨[], .item (marker i) bss width g.closed g.tip⟩ := by
  cases others with
  | nil =>
    refine ⟨_, h.length_pos i, ?_⟩
    rw [List.nil_append, numberedLines, numberedLines, List.flatten_singleton]
    exact h.reads_first bounded last
  | @cons ms bs lss bss hms hothers =>
    obtain ⟨first, hcontent, rfl⟩ := hms
    have hbounded : i + 1 + lss.length < count := by simp only [List.length_cons] at bounded; omega
    obtain ⟨width', hwide, hrest⟩ :=
      h.reads_further (j := i) hothers last hbounded (h.length_pos i) [] first
    refine ⟨width', hwide, ?_⟩
    rw [List.cons_append, numberedLines, List.flatten_cons]
    exact (h.reads_first (by omega) hcontent).append hrest

/-- Lines of blocks that can be those of an item, whether an empty line follows them or not. -/
structure IsItemLines (sign : Char) (levels : Nat) (ls : List Chars) (bs : List Block) : Prop where
  reads : ReadsInto levels ls bs
  first : ∃ l rest, ls = l :: rest ∧ FollowsBullet sign l
  holds : ∀ l ∈ ls, HoldsIndent l

theorem IsItemLines.ne_nil (h : IsItemLines sign levels ls bs) : ls ≠ [] := by
  obtain ⟨l, rest, rfl, -⟩ := h.first
  exact List.cons_ne_nil l rest

theorem IsItemLines.exists_content (h : IsItemLines sign levels ls bs) :
    ∃ g, IsItemContent sign levels ls g ∧ ∀ inItem, g.blocks inItem = bs := by
  obtain ⟨g, hreads, hblocks, -⟩ := h.reads.ends
  exact ⟨g, ⟨hreads, h.first, h.holds⟩, hblocks⟩

theorem IsItemLines.exists_content_blank (h : IsItemLines sign levels ls bs) :
    ∃ g, IsItemContent
      sign levels (ls ++ [[]]) g ∧ (∀ inItem, g.blocks inItem = Block.thenBlankAll bs) ∧
        g.tip.endsInParagraph = false := by
  obtain ⟨g, hreads, hblocks, hshut⟩ := h.reads.parts
  obtain ⟨l, rest, rfl, hfollows⟩ := h.first
  have hholds : ∀ m ∈ l :: rest ++ [[]], HoldsIndent m :=
    List.forall_mem_append.mpr ⟨h.holds, List.forall_mem_singleton.mpr (.inl rfl)⟩
  exact ⟨g, ⟨hreads, ⟨l, rest ++ [[]], rfl, hfollows⟩, hholds⟩, hblocks, hshut.shut⟩

/-- An item with what is between it and the next one. -/
theorem IsItemLines.exists_content_gap (h : IsItemLines sign levels ls bs) (tight : Bool) :
    ∃ g, IsItemContent sign levels (ls ++ gapOf tight) g ∧ g.blocks true = if tight then bs
    else Block.thenBlankAll bs := by
  cases tight with
  | true =>
    obtain ⟨g, hcontent, hblocks⟩ := h.exists_content
    exact ⟨g, by rwa [gapOf, if_pos rfl, List.append_nil], hblocks true⟩
  | false =>
    obtain ⟨g, hcontent, hblocks, -⟩ := h.exists_content_blank
    exact ⟨g, hcontent, hblocks true⟩

/-- A list is read as the list of what is read in its items. -/
theorem IsMarking.readsInto (h : IsMarking sign count mark marker) {lss : List (List Chars)}
    {bss : List (List Block)} (items : List.Forall₂ (IsItemLines sign levels) lss bss)
    (some : bss ≠ []) (bounded : i + lss.length ≤ count) (tight : Bool) :
    ReadsInto (levels + 1) (stacked (gapOf tight) (numberedLines mark i lss))
      [.list (marker i) (Block.itemsApart tight bss)] := by
  obtain ⟨bss, bs, rfl⟩ := bss.eq_nil_or_concat'.resolve_left some
  obtain ⟨lss, ls, rfl, hitems, hlast⟩ := forall₂_concat items
  have hsome : ∀ ls ∈ lss, ls ≠ [] := by
    clear items bounded some
    induction hitems with
    | nil => simp
    | cons hitem _ ih => exact List.forall_mem_cons.mpr ⟨hitem.ne_nil, ih⟩
  have hothers : List.Forall₂ (fun ls bs =>
        ∃ g, IsItemContent sign levels ls g ∧ g.blocks true = bs) (lss.map (· ++ gapOf tight))
      (bss.map fun bs => if tight then bs else Block.thenBlankAll bs) :=
    List.forall₂_map_left_iff.mpr
      (List.forall₂_map_right_iff.mpr (hitems.imp fun _ _ hitem => hitem.exists_content_gap tight))
  have hbounded : i + (lss.map (· ++ gapOf tight)).length < count := by
    simp only [List.length_append, List.length_singleton, List.length_map] at bounded ⊢
    omega
  rw [Block.itemsApart_concat]
  constructor
  · obtain ⟨g, hcontent, hblocks⟩ := hlast.exists_content
    obtain ⟨width, hwide, hreads⟩ := h.reads_list hothers hcontent hbounded
    rw [← stacked_numberedLines hsome] at hreads
    refine ⟨_, hreads, fun inItem => ?_, ?_⟩
    · rw [← hblocks true]
      rfl
    · rintro b k ⟨⟩ ⟨⟩
      exact givesWay_item levels _ _ hwide _ _
  · obtain ⟨g, hcontent, hblocks, hshut⟩ := hlast.exists_content_blank
    obtain ⟨width, hwide, hreads⟩ := h.reads_list hothers hcontent hbounded
    rw [← stacked_numberedLines hsome, stacked_numberedLines_blank hlast.ne_nil] at hreads
    refine ⟨_, hreads, fun inItem => ?_, hshut, fun c cs hspace hother o column => ?_⟩
    · rw [Block.thenBlankAll, Block.thenBlank, Block.thenBlankLast_concat, ← hblocks true]
      rfl
    · have hbegins : ¬BeginsItem (c :: cs) := hother ⟨_, _, rfl⟩
      exact Tip.Parts.advance levels hspace
        (parts_of_item hshut hwide fun item hitem => hbegins ⟨column, item, hitem⟩) o

end Canonmark.Markdown
