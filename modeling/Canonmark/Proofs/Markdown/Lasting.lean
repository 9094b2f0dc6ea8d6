import Canonmark.Proofs.Markdown.Stack
import Canonmark.Markdown.Tip

/-! No line takes a block away: what a tip would close to lasts, though it may grow. -/
namespace Canonmark.Markdown

/-- What later lines can make of a block. -/
inductive Block.Grows : Block → Block → Prop
  | refl (b : Block) : Grows b b
  | paragraph (s t : Chars) : Grows (.paragraph s) (.paragraph t)
  | heading (s : Chars) (level : Level) (t : Chars) : Grows (.paragraph s) (.heading level t)
  | code (info : Option Chars) (s t : Chars) : Grows (.code info s) (.code info t)
  | html (s t : Chars) : Grows (.html s) (.html t)
  | quote (bs cs : List Block) : Grows (.quote bs) (.quote cs)
  | list (m : Marker) {items items' : List (List Block)} (h : items.length ≤ items'.length) :
    Grows (.list m items) (.list m items')

/-- The class of the node that a block stands for. -/
def Block.kind? : Block → Option Kind
  | .blank | .definition _ => none
  | .thematicBreak => some .thematicBreak
  | .heading .. => some .heading
  | .paragraph _ => some .paragraph
  | .code .. => some .codeBlock
  | .html _ => some .htmlBlock
  | .quote _ => some .blockQuote
  | .list .. => some .list

/-- The blocks of a growth after which nothing more is added; `inItem` tells whether they end an
item. -/
def Growth.blocks (inItem : Bool) (g : Growth) : List Block := g.closed ++ g.tip.closeIn inItem

/-- The number of blocks that are no blank lines. -/
def solids (bs : List Block) : Nat := bs.countP (!·.isBlank)

@[simp] theorem solids_append (bs cs : List Block) : solids (bs ++ cs) = solids bs + solids cs :=
  List.countP_append

/-- Blocks that have grown into others, to which more may have been added. -/
structure Outgrown (bs cs : List Block) : Prop where
  grows : ∀ b ∈ bs, b.isBlank = false → ∃ c ∈ cs, b.Grows c
  count : solids bs ≤ solids cs

variable {bs cs ds : List Block} {b c d : Block}

theorem Block.Grows.isBlank_eq (h : b.Grows c) : c.isBlank = b.isBlank := by
  cases h <;> rfl

theorem Block.Grows.kind?_eq {k : Kind} (h : b.Grows c) (hb : b.kind? = some k)
    (other : k ≠ .paragraph) : c.kind? = some k := by
  cases h with
  | heading s level t => exact absurd (Option.some.inj hb).symm other
  | refl | paragraph _ _ | code _ _ _ | html _ _ | quote _ _ | list _ _ => exact hb

theorem Block.Grows.trans (h : b.Grows c) (h' : c.Grows d) : b.Grows d := by
  cases h with
  | refl => exact h'
  | heading s level t =>
    cases h'
    exact .heading s level t
  | paragraph s t =>
    cases h' with
    | refl => exact .paragraph s t
    | paragraph _ u => exact .paragraph s u
    | heading _ level u => exact .heading s level u
  | code info s t => cases h' <;> exact .code info s _
  | html s t => cases h' <;> exact .html s _
  | quote bs cs => cases h' <;> exact .quote bs _
  | list m hle =>
    cases h' with
    | refl => exact .list m hle
    | list _ hle' => exact .list m (Nat.le_trans hle hle')

theorem Outgrown.refl (bs : List Block) : Outgrown bs bs :=
  ⟨fun b hb _ => ⟨b, hb, .refl b⟩, Nat.le_refl _⟩

theorem Outgrown.trans (h : Outgrown bs cs) (h' : Outgrown cs ds) : Outgrown bs ds where
  grows b hb hsolid := by
    obtain ⟨c, hc, hgrows⟩ := h.grows b hb hsolid
    obtain ⟨d, hd, hgrows'⟩ := h'.grows c hc (hgrows.isBlank_eq.trans hsolid)
    exact ⟨d, hd, hgrows.trans hgrows'⟩
  count := Nat.le_trans h.count h'.count

theorem Outgrown.append_left (h : Outgrown bs cs) (before : List Block) :
    Outgrown (before ++ bs) (before ++ cs) where
  grows b hb hsolid := by
    obtain hb | hb := List.mem_append.mp hb
    · exact ⟨b, List.mem_append_left _ hb, .refl b⟩
    · obtain ⟨c, hc, hgrows⟩ := h.grows b hb hsolid
      exact ⟨c, List.mem_append_right _ hc, hgrows⟩
  count := by
    have hcount := h.count
    simp only [solids_append]
    omega

/-- One block at most is outgrown as soon as there is what it has grown into. -/
theorem Outgrown.of_single (single : solids bs ≤ 1)
    (h : ∀ b ∈ bs, b.isBlank = false → ∃ c ∈ cs, b.Grows c) : Outgrown bs cs where
  grows := h
  count := by
    obtain hnone | hone : solids bs = 0 ∨ solids bs = 1 := by omega
    · omega
    · obtain ⟨b, hb, hsolid⟩ := List.countP_pos_iff.mp (hone ▸ Nat.one_pos : 0 < solids bs)
      obtain ⟨c, hc, hgrows⟩ := h b hb (by simpa using hsolid)
      have hpos : 0 < solids cs :=
        List.countP_pos_iff.mpr ⟨c, hc, by simpa [hgrows.isBlank_eq] using hsolid⟩
      omega

theorem Outgrown.append_right (h : Outgrown bs cs) (later : List Block) :
    Outgrown bs (cs ++ later) where
  grows b hb hsolid := by
    obtain ⟨c, hc, hgrows⟩ := h.grows b hb hsolid
    exact ⟨c, List.mem_append_left _ hc, hgrows⟩
  count := by
    have hcount := h.count
    simp only [solids_append]
    omega

/-- Lines that hold more than white space. -/
def Inked (lines : List Chars) : Prop := ∃ l ∈ lines, ∃ c ∈ l, isLineSpace c = false

theorem mem_unlines_of_mem {l : Chars} {c : Char} {lines : List Chars} (h : l ∈ lines)
    (hc : c ∈ l) : c ∈ Text.unlines lines := by
  obtain ⟨before, after, rfl⟩ := List.append_of_mem h
  rw [Text.unlines_append before (List.cons_ne_nil l after)]
  cases after with
  | nil => simp [hc]
  | cons m after => simp [Text.unlines_cons l (List.cons_ne_nil m after), hc]

theorem paragraphText_ne_nil_iff (lines : List Chars) :
    Tip.paragraphText lines ≠ [] ↔ Inked lines := by
  have htext : Tip.paragraphText lines ≠ [] ↔ ∃ c ∈ Text.unlines lines, isLineSpace c = false := by
    rw [Tip.paragraphText]
    have hparts := List.takeWhile_append_dropWhile (p := isLineSpace) (l := Text.unlines lines)
    cases hdrop : (Text.unlines lines).dropWhile isLineSpace with
    | nil =>
      have hall : (Text.unlines lines).all isLineSpace := by
        rw [hdrop, List.append_nil] at hparts
        exact hparts ▸ List.all_takeWhile
      simpa [Text.dropEndWhile] using List.all_eq_true.mp hall
    | cons c cs =>
      have hc : isLineSpace c = false := by
        have hhead := List.head?_dropWhile_not isLineSpace (Text.unlines lines)
        simpa [hdrop] using hhead
      have hspace : isSpace c = false := by
        simp only [isLineSpace, Bool.or_eq_false_iff] at hc
        exact hc.1
      have hmem : c ∈ Text.unlines lines :=
        (List.dropWhile_sublist isLineSpace).mem (hdrop ▸ List.mem_cons_self)
      exact iff_of_true (Text.dropEndWhile_ne_nil List.mem_cons_self hspace) ⟨c, hmem, hc⟩
  rw [htext]
  constructor
  · rintro ⟨c, hc, hink⟩
    obtain rfl | ⟨l, hl, hcl⟩ := Text.mem_unlines hc
    · cases hink
    · exact ⟨l, hl, c, hcl, hink⟩
  · rintro ⟨l, hl, c, hcl, hink⟩
    exact ⟨c, mem_unlines_of_mem hl hcl, hink⟩

theorem paragraphBlocks_of_inked {lines : List Chars} (h : Inked lines) :
    Tip.paragraphBlocks lines = [.paragraph (Tip.paragraphText lines)] := by
  have hsome := (paragraphText_ne_nil_iff lines).mpr h
  rw [Tip.paragraphBlocks]
  exact if_neg (by simpa [List.isEmpty_iff] using hsome)

theorem paragraphBlocks_of_not_inked {lines : List Chars} (h : ¬Inked lines) :
    Tip.paragraphBlocks lines = [] := by
  have hnone := mt (paragraphText_ne_nil_iff lines).mp h
  rw [Tip.paragraphBlocks]
  exact if_pos (by simpa [List.isEmpty_iff] using hnone)

theorem lastLines_subset (inItem : Bool) (lines : List Chars) :
    Tip.lastLines inItem lines ⊆ lines := by
  cases inItem with
  | false => exact List.Subset.refl _
  | true =>
    intro l hl
    rw [Tip.lastLines, if_pos rfl, List.mem_reverse] at hl
    exact List.mem_reverse.mp ((List.dropWhile_sublist _).mem hl)

theorem lastLines_append_subset (inItem : Bool) (lines : List Chars) (l : Chars) :
    Tip.lastLines inItem lines ⊆ Tip.lastLines inItem (lines ++ [l]) := by
  cases inItem with
  | false => exact List.subset_append_left _ _
  | true =>
    cases hblank : l.all Text.isBlank with
    | true =>
      have hlast : Tip.lastLines true (lines ++ [l]) = Tip.lastLines true lines := by
        simp [Tip.lastLines, hblank]
      rw [hlast]
      exact List.Subset.refl _
    | false =>
      have hlast : Tip.lastLines true (lines ++ [l]) = lines ++ [l] := by
        simp [Tip.lastLines, hblank]
      rw [hlast]
      exact fun m hm => List.mem_append_left _ (lastLines_subset true lines hm)

theorem Inked.mono {lines lines' : List Chars} (h : Inked lines) (subset : lines ⊆ lines') :
    Inked lines' := by
  obtain ⟨l, hl, hink⟩ := h
  exact ⟨l, subset hl, hink⟩

/-- A paragraph lasts when there are more lines. -/
theorem outgrown_paragraph {lines lines' : List Chars} (subset : lines ⊆ lines') :
    Outgrown (Tip.paragraphBlocks lines) (Tip.paragraphBlocks lines') := by
  by_cases hink : Inked lines
  · rw [paragraphBlocks_of_inked hink, paragraphBlocks_of_inked (hink.mono subset)]
    exact .of_single (Nat.le_refl _) (by simpa using fun _ => Block.Grows.paragraph _ _)
  · rw [paragraphBlocks_of_not_inked hink]
    exact ⟨by simp, Nat.zero_le _⟩

/-- A paragraph lasts as the heading that it becomes. -/
theorem outgrown_heading {level : Level} {lines : List Chars}
    (h : Tip.heading? level lines = some c) : Outgrown (Tip.paragraphBlocks lines) [c] := by
  have hsome := Option.ite_none_left_eq_some.mp h
  obtain rfl := Option.some.inj hsome.2
  rw [Tip.paragraphBlocks, if_neg hsome.1]
  exact .of_single (Nat.le_refl _) (by simpa using fun _ => Block.Grows.heading _ level _)

theorem solids_blankEnd (lines : List Chars) : solids (Tip.blankEnd lines) = 0 := by
  rw [Tip.blankEnd]
  split <;> rfl

theorem isBlank_of_mem_blankEnd {lines : List Chars} (h : b ∈ Tip.blankEnd lines) : b.isBlank := by
  rw [Tip.blankEnd] at h
  split at h
  · rw [List.mem_singleton.mp h]
    rfl
  · cases h

/-- One block and the blank line after it are outgrown by what the block has grown into. -/
theorem outgrown_blankEnd (lines : List Chars) (h : ∃ c ∈ cs, b.Grows c) :
    Outgrown (b :: Tip.blankEnd lines) cs := by
  refine .of_single ?_ fun b' hb' hsolid => ?_
  · have hone : solids [b] ≤ 1 := List.countP_le_length
    rw [← List.singleton_append, solids_append, solids_blankEnd]
    omega
  · obtain rfl | hb' := List.mem_cons.mp hb'
    · exact h
    · rw [isBlank_of_mem_blankEnd hb'] at hsolid
      cases hsolid

/-- Outside of an item, a tip closes to no less. -/
theorem outgrown_close (tip : Tip) (inItem : Bool) : Outgrown (tip.closeIn inItem) tip.close := by
  cases tip with
  | paragraph lines => exact outgrown_paragraph (lastLines_subset inItem lines)
  | fenced f lines => exact outgrown_blankEnd lines ⟨_, List.mem_cons_self, .code _ _ _⟩
  | indented lines => exact outgrown_blankEnd lines ⟨_, List.mem_cons_self, .code _ _ _⟩
  | html kind lines => exact outgrown_blankEnd lines ⟨_, List.mem_cons_self, .html _ _⟩
  | idle | defined _ | quote _ _ | list _ _ | item _ _ _ _ _ => exact .refl _

variable {inItem : Bool}

theorem outgrown_after {g : Growth} (h : Outgrown bs cs) :
    Outgrown bs ((g.after cs).blocks inItem) := by
  rw [Growth.blocks, Growth.after, List.append_assoc]
  exact h.append_right _

theorem outgrown_single (h : b.Grows c) : Outgrown [b] [c] :=
  .of_single (Nat.le_trans List.countP_le_length (Nat.le_refl 1)) (by simpa using fun _ => h)

theorem outgrown_extend (inItem : Bool) (levels : Nat) (o : Outlook) (l : Line) (tip : Tip) :
    Outgrown (tip.closeIn inItem) ((tip.extend levels o l).blocks inItem) := by
  cases tip with
  | defined pending => exact ⟨by simp [Tip.closeIn], Nat.zero_le _⟩
  | paragraph lines => exact outgrown_paragraph (lastLines_append_subset inItem lines l.text)
  | quote done inner => exact outgrown_single (.quote _ _)
  | item marker items width done inner => exact outgrown_single (.list marker (by simp))
  | idle | fenced _ _ | indented _ | html _ _ | list _ _ => exact .refl _

theorem outgrown_leave (levels : Nat) (o : Outlook) (tip : Tip) (l : Line) :
    Outgrown (tip.closeIn inItem) ((tip.leave levels o l).blocks inItem) := by
  have hclose := outgrown_close tip inItem
  rw [Tip.leave]
  split
  · exact (hclose.append_right _).append_right _
  · split
    · exact outgrown_after hclose
    · split
      · exact outgrown_extend inItem levels o l tip
      · exact outgrown_after hclose

/-- What begins an item leaves it open. -/
theorem exists_start_item (levels : Nat) (o : Outlook) (i : ItemStart) (l : Line) :
    ∃ done inner,
      Tip.start (levels + 1) o (.item i) l = .keep (.item i.marker [] i.width done inner) := by
  rw [Tip.start]
  split
  · exact ⟨_, _, rfl⟩
  · split
    · exact ⟨_, _, rfl⟩
    · exact ⟨_, _, rfl⟩

/-- Where nothing is nested, no line begins a quote or an item. -/
theorem find?_unnested {context : Context} {l : Line} {s : Start}
    (h : Start.find? context false l = some s) : (∀ rest, s ≠ .quote rest) ∧ ∀ i, s ≠ .item i := by
  rw [Start.find?] at h
  simp only [Bool.false_eq_true, if_false] at h
  split at h
  · obtain rfl := Option.some.inj (Option.ite_none_right_eq_some.mp h).2
    simp
  · split at h
    · cases h
      simp
    · cases h
      simp
    · cases h
      simp
    · obtain rfl := Option.some.inj (Option.ite_none_right_eq_some.mp h).2
      simp

theorem outgrown_leaveItem {marker : Marker} {items : List (List Block)} {tip : Tip}
    (levels : Nat) (o : Outlook) (l : Line) (h : tip.closeIn inItem = [.list marker items]) :
    Outgrown (tip.closeIn inItem) ((tip.leaveItem levels o marker items l).blocks inItem) := by
  rw [Tip.leaveItem]
  split
  · rename_i i hfind
    split
    · cases levels with
      | zero => exact absurd rfl ((find?_unnested hfind).2 i)
      | succ levels =>
        obtain ⟨done, inner, hstart⟩ := exists_start_item levels o i l
        rw [hstart, h]
        exact outgrown_single (.list marker (by simp))
    · exact outgrown_leave _ _ _ _
  · exact outgrown_leave _ _ _ _

/-- What a tip would close to lasts over one more line. -/
theorem outgrown_advance (inItem : Bool) (levels : Nat) (o : Outlook) (tip : Tip) (l : Line) :
    Outgrown (tip.closeIn inItem) ((tip.advance levels o l).blocks inItem) := by
  have hnone : ∀ cs, Outgrown [] cs := fun cs => ⟨by simp, Nat.zero_le _⟩
  cases tip with
  | idle | defined _ => exact hnone _
  | paragraph lines =>
    have hclose := outgrown_paragraph (lastLines_subset inItem lines)
    rw [Tip.advance]
    split
    · exact (hclose.append_right _).append_right _
    · split
      · rename_i b hunderline
        obtain ⟨level, -, hheading⟩ := Option.bind_eq_some_iff.mp hunderline
        exact hclose.trans (outgrown_heading hheading)
      · split
        · exact outgrown_after hclose
        · exact outgrown_paragraph (lastLines_append_subset inItem lines l.text)
  | fenced f lines =>
    rw [Tip.advance]
    split
    · exact outgrown_blankEnd _ ⟨_, List.mem_cons_self, .code _ _ _⟩
    · exact outgrown_blankEnd _ ⟨_, List.mem_cons_self, .code _ _ _⟩
  | indented lines =>
    rw [Tip.advance]
    split
    · exact outgrown_blankEnd _ ⟨_, List.mem_cons_self, .code _ _ _⟩
    · exact outgrown_after (outgrown_close (.indented lines) inItem)
  | html kind lines =>
    rw [Tip.advance]
    split
    · exact outgrown_blankEnd _ ⟨_, List.mem_cons_self, .html _ _⟩
    · rw [Tip.addHtml]
      split
      · exact outgrown_blankEnd _ ⟨_, List.mem_cons_self, .html _ _⟩
      · exact outgrown_blankEnd _ ⟨_, List.mem_cons_self, .html _ _⟩
  | quote done inner =>
    rw [Tip.advance]
    split
    · exact outgrown_single (.quote _ _)
    · exact outgrown_leave _ _ _ _
  | list marker items =>
    rw [Tip.advance]
    split
    · exact .refl _
    · exact outgrown_leaveItem levels o l rfl
  | item marker items width done inner =>
    rw [Tip.advance]
    split
    · exact outgrown_single (.list marker (by simp))
    · split
      · exact outgrown_single (.list marker (by simp))
      · exact outgrown_leaveItem levels o l rfl

end Canonmark.Markdown
