import Canonmark.Proofs.Markdown.Written

/-! Blocks that are written with the same lines wherever they stand, but for the indentation of the
lines after the first. -/
namespace Canonmark.Markdown

/-- A line that is indented, unless it is empty. -/
def hang (w : Nat) (l : Chars) : Chars := if l.isEmpty then [] else List.replicate w ' ' ++ l

/-- Lines all of which but the first are indented. -/
def hung (w : Nat) : List Chars → List Chars
  | [] => []
  | l :: ls => l :: ls.map (hang w)

/-- Indented lines, each after a line end. -/
def under (w : Nat) (ls : List Chars) : Chars := ls.flatMap fun l => '\n' :: hang w l

/-- The lines between two blocks, or between two items. -/
def gapOf (tight : Bool) : List Chars := if tight then [] else [[]]

/-- Lines the first of which is not empty. -/
def Headed (ls : List Chars) : Prop := ∃ c cs rest, ls = (c :: cs) :: rest

variable {w k : Nat} {l : Chars} {ls ms : List Chars} {lss : List (List Chars)} {tight : Bool}

theorem hang_of_ne_nil (h : l ≠ []) : hang w l = List.replicate w ' ' ++ l :=
  if_neg (by simpa using h)

theorem hang_zero (l : Chars) : hang 0 l = l := by
  cases l <;> rfl

theorem hang_eq_nil_iff : hang w l = [] ↔ l = [] := by
  unfold hang
  cases l <;> simp

theorem hang_hang (w k : Nat) (l : Chars) : hang w (hang k l) = hang (w + k) l := by
  obtain rfl | hl := eq_or_ne l []
  · rfl
  · rw [hang_of_ne_nil (mt hang_eq_nil_iff.mp hl), hang_of_ne_nil hl, hang_of_ne_nil hl,
      ← List.append_assoc, List.replicate_append_replicate]

theorem hung_zero (ls : List Chars) : hung 0 ls = ls := by
  cases ls with
  | nil => rfl
  | cons l ls => rw [hung, show hang 0 = id from funext hang_zero, List.map_id]

theorem Headed.ne_nil (h : Headed ls) : ls ≠ [] := by
  obtain ⟨c, cs, rest, rfl⟩ := h
  exact List.cons_ne_nil _ _

theorem Headed.append (h : Headed ls) (ms : List Chars) : Headed (ls ++ ms) := by
  obtain ⟨c, cs, rest, rfl⟩ := h
  exact ⟨c, cs, rest ++ ms, rfl⟩

theorem Headed.stacked {gap : List Chars} (h : Headed ls) (lss : List (List Chars)) :
    Headed (stacked gap (ls :: lss)) := h.append _

theorem IsFramed.headed (h : IsFramed ls) : Headed ls := by
  obtain ⟨c, cs, rest, rfl, -⟩ := h.first
  exact ⟨c, cs, rest, rfl⟩

theorem under_append (ls ms : List Chars) : under w (ls ++ ms) = under w ls ++ under w ms :=
  List.flatMap_append

theorem unlines_hung_cons (l : Chars) (ls : List Chars) :
    Text.unlines (hung w (l :: ls)) = l ++ under w ls := by
  rw [hung, Text.unlines, Text.intercalate_cons, List.flatMap_map]
  rfl

theorem unlines_hung_append (some : ls ≠ []) :
    Text.unlines (hung w (ls ++ ms)) = Text.unlines (hung w ls) ++ under w ms := by
  obtain ⟨l, ls, rfl⟩ := List.exists_cons_of_ne_nil some
  rw [List.cons_append, unlines_hung_cons, unlines_hung_cons, under_append, List.append_assoc]

/-- The first of the lines is indented like the others. -/
theorem Headed.under (h : Headed ls) :
    under w ls = '\n' :: (List.replicate w ' ' ++ Text.unlines (hung w ls)) := by
  obtain ⟨c, cs, rest, rfl⟩ := h
  rw [Markdown.under, List.flatMap_cons, hang_of_ne_nil (List.cons_ne_nil c cs), unlines_hung_cons,
    List.cons_append, List.append_assoc]
  rfl

/-- Lines none of which is empty are parted by line ends and spaces. -/
theorem intercalate_newline (some : ∀ l ∈ ls, l ≠ []) (w : Nat) :
    List.intercalate (Writer.newline w) ls = Text.unlines (hung w ls) := by
  cases ls with
  | nil => rfl
  | cons l ls =>
    obtain ⟨-, hls⟩ := List.forall_mem_cons.mp some
    rw [unlines_hung_cons, Text.intercalate_cons]
    congr 1
    refine List.flatMap_congr fun m hm => ?_
    rw [hang_of_ne_nil (hls m hm)]
    rfl

theorem indentLines_unlines (some : ls ≠ []) (single : ∀ l ∈ ls, '\n' ∉ l) (w : Nat) :
    Writer.indentLines w (Text.unlines ls) = Text.unlines (hung w ls) := by
  obtain ⟨l, ls, rfl⟩ := List.exists_cons_of_ne_nil some
  rw [Writer.indentLines, Text.lines_unlines some single]
  rfl

variable {n a b : Node}

theorem ofBlock_single (typed : n.kind?.isSome) (solid : isTransparent n = false) :
    BlockUnit.ofBlock n = [.single n] := by
  cases n with
  | leaf x span => rw [BlockUnit.ofBlock] <;> simp
  | branch c span children => rw [BlockUnit.ofBlock, solid, if_neg Bool.false_ne_true]
  | foreign v => cases typed

theorem isHtml_single (n : Node) : (BlockUnit.single n).isHtml = (n.kind? == some .htmlBlock) := by
  cases n with
  | leaf x span => cases x <;> rfl
  | branch c span children => cases c <;> rfl
  | foreign v => rfl

theorem isParagraphLike_single (n : Node) :
    (BlockUnit.single n).isParagraphLike = (n.kind? == some .paragraph) := by
  cases n with
  | leaf x span => cases x <;> rfl
  | branch c span children => cases c <;> rfl
  | foreign v => rfl

theorem endsItself_single (n : Node) : (BlockUnit.single n).endsItself =
    (n.kind? == some .heading || n.kind? == some .thematicBreak || n.kind? == some .codeBlock) := by
  cases n with
  | leaf x span => cases x <;> rfl
  | branch c span children => cases c <;> rfl
  | foreign v => rfl

/-- What is known of two blocks without a blank line between them, unless the first one ends
itself. -/
structure NeedNoBlankLine (style : Style) (a b : Node) : Prop where
  html : a.kind? ≠ some .htmlBlock
  text : b.kind? ≠ some .paragraph ∧ b.kind? ≠ some .htmlBlock
  interrupts : a.kind? = some .paragraph → ∀ data span children, b =
    .branch (.list data) span children → canInterrupt style data children

theorem needNoBlankLine (h : needsBlankLine style (.single a) (.single b) = false) (going :
      ¬(a.kind? = some .heading ∨ a.kind? = some .thematicBreak ∨ a.kind? = some .codeBlock)) :
    NeedNoBlankLine style a b := by
  have hends : (BlockUnit.single a).endsItself = false := by
    rw [endsItself_single]
    simpa [and_assoc] using going
  unfold needsBlankLine at h
  rw [isHtml_single, isHtml_single, isParagraphLike_single, isParagraphLike_single, hends] at h
  by_cases html : a.kind? = some .htmlBlock
  · simp [html] at h
  by_cases text : b.kind? = some .paragraph ∨ b.kind? = some .htmlBlock
  · simp [text] at h
  refine ⟨html, by simpa using text, ?_⟩
  rintro paragraph data span children rfl
  have hnot : (!canInterrupt style data children) = false := by
    simpa [html, paragraph, text] using h
  simpa using hnot

namespace Writer

variable {style : Style} {n : Node} {ns : List Node} {l : Layout}

/-- A node that is a block of its own, written with the given lines at every indentation. -/
structure IsHung (style : Style) (n : Node) (ls : List Chars) : Prop where
  inline : isInline n = false
  block : block style n = (do startBlock; node style n)
  unit : BlockUnit.ofBlock n = [.single n]
  headed : Headed ls
  writes : ∀ l, Writes (node style n) (Text.unlines (hung l.indent ls)) l

theorem IsHung.isWritten (h : IsHung style n ls) : IsWritten style n ls where
  inline := h.inline
  block := h.block
  some := h.headed.ne_nil
  writes l flush := by
    have hwrites := h.writes l
    rwa [flush, hung_zero] at hwrites

theorem IsHung.isWrittenAt (h : IsHung style n ls) (indent : Nat) :
    IsWrittenAt style indent n (Text.unlines (hung indent ls)) where
  inline := h.inline
  block := h.block
  writes l hindent := hindent ▸ h.writes l

theorem headed_stacked (h : List.Forall₂ (IsHung style) ns lss) (some : ns ≠ [])
    (gap : List Chars) : Headed (stacked gap lss) := by
  cases h with
  | nil => exact absurd rfl some
  | cons hn _ => exact hn.headed.stacked _

/-- What is between two blocks is the lines between them. -/
theorem under_gapOf (h : Headed ls) (tight : Bool) :
    under w (gapOf tight ++ ls) = separator tight w ++ Text.unlines (hung w ls) := by
  rw [under_append, h.under]
  cases tight <;> simp [gapOf, separator, under, hang]

/-- Blocks are written under each other at every indentation. -/
theorem blocks_hung (h : List.Forall₂ (IsHung style) ns lss) (some : ns ≠ []) (first : l.first) :
    ∃ out, blocks style ns l = .ok () { l with first := false, out } ∧
      out.reverse.flatten = Layout.text l ++
      Text.unlines (hung l.indent (stacked (gapOf l.tight) lss)) := by
  cases h with
  | nil => exact absurd rfl some
  | @cons n ls ns lss hn hns =>
    have hothers : List.Forall₂ (IsWrittenAt style l.indent) ns
        (lss.map fun ls => Text.unlines (hung l.indent ls)) :=
      List.forall₂_map_right_iff.mpr (hns.imp fun _ _ h => h.isWrittenAt l.indent)
    have hunder : under l.indent (lss.flatMap (gapOf l.tight ++ ·)) = (lss.map fun ls =>
          Text.unlines (hung l.indent ls)).flatMap (separator l.tight l.indent ++ ·) := by
      rw [under, List.flatMap_assoc, List.flatMap_map]
      exact List.flatMap_congr fun ms hms =>
        under_gapOf (forall_right_of_forall₂ hns (fun _ _ h => h.headed) ms hms) l.tight
    obtain ⟨out, hblocks, hout⟩ := blocks_of_isWrittenAt (hn.isWrittenAt l.indent) hothers first
    refine ⟨out, hblocks, ?_⟩
    rw [stacked, unlines_hung_append hn.headed.ne_nil, hunder]
    exact hout

/-- A block of one line is the same at every indentation. -/
theorem isHung_line {line : Chars} (inline : isInline n = false)
    (block : block style n = (do startBlock; node style n))
    (unit : BlockUnit.ofBlock n = [.single n]) (some : line ≠ [])
    (h : ∀ l, Writes (node style n) line l) :
    IsHung style n [line] where
  inline := inline
  block := block
  unit := unit
  headed := by
    obtain ⟨c, cs, rfl⟩ := List.exists_cons_of_ne_nil some
    exact ⟨c, cs, [], rfl⟩
  writes l := by
    rw [unlines_hung_cons, under, List.flatMap_nil, List.append_nil]
    exact h l

theorem isHung_heading {text content : Chars} (level : Level)
    (hinlines : ∀ l, inlines style ns l = .ok text l)
    (hcontent : (if style.escape then headingContent text else text) = content)
    (some : content ≠ []) :
    IsHung style (.branch (.heading level) none ns)
      [List.replicate level.number '#' ++ ' ' :: content] :=
  isHung_line rfl (block_branch rfl style) (ofBlock_single rfl rfl) (by simp)
    fun l => writes_heading level (hinlines l) hcontent some

/-- A paragraph of a single node is one line. -/
theorem isHung_single {line : Chars} (inline : isInline n) (some : line ≠ [])
    (h : ∀ l : Layout, l.out = [] → Writes (node style n) line l) :
    IsHung style (.branch .paragraph none [n]) [line] := by
  have typed : n.kind?.isSome := by
    cases n with
    | foreign v => cases inline
    | leaf x span | branch c span children => rfl
  have own : isTransparent (.branch .paragraph none [n]) = false := by simp [isTransparent, inline]
  refine isHung_line rfl (block_branch own style) (ofBlock_single rfl own) some fun l => ?_
  rw [node]
  exact .after (inlines_singleton typed h l) (writes_emit _ l)

theorem isHung_thematicBreak : IsHung style (.leaf .thematicBreak none) [['*', '*', '*']] :=
  isHung_line rfl (block_leaf style _ none) rfl (by simp) fun l => writes_thematicBreak l

theorem isHung_prose {ls : List String} (prose : IsProse ls) (headed : Headed (lineTexts ls))
    (some : ∀ l ∈ lineTexts ls, l ≠ []) : IsHung style (paragraphOf ls) (lineTexts ls) where
  inline := rfl
  block := block_branch (isTransparent_paragraph ls) style
  unit := ofBlock_single rfl (isTransparent_paragraph ls)
  headed := headed
  writes l := by
    rw [← intercalate_newline some]
    exact writes_paragraph prose l

/-- Code is indented with its fences, but for its empty lines. -/
theorem isHung_fenced {t : String} {info : Option String} {mark : Chars}
    (ends : t.toList = [] ∨ t.toList.getLast? = some '\n')
    (hmark : fenceAround style t.toList = .ok mark)
    (framed : IsFramed ((mark ++ (info.getD "").toList) :: codeLines t.toList ++ [mark])) :
    IsHung style (.leaf (.codeBlock t info none) none)
    ((mark ++ (info.getD "").toList) :: codeLines t.toList ++ [mark]) where
  inline := rfl
  block := block_leaf style _ none
  unit := rfl
  headed := framed.headed
  writes l := by
    rw [node, leaf]
    refine .after (a := l) rfl ?_
    simp only [hmark]
    rw [codeBlock_eq ends, indentLines_unlines framed.ne_nil fun m hm => (framed.single m hm).1]
    exact writes_emit _ l

/-- A quote is written with its sign before each line. -/
theorem isHung_quote (h : List.Forall₂ (IsHung style) ns lss)
    (framed : IsFramed (stacked [[]] lss)) : IsHung style (.branch .blockQuote none ns)
    ((stacked [[]] lss).map quoteLine) where
  inline := rfl
  block := block_branch rfl style
  unit := ofBlock_single rfl rfl
  headed := framed.quoted.headed
  writes l := by
    have hsome : ∀ m ∈ (stacked [[]] lss).map quoteLine, m ≠ [] := by
      intro m hm
      obtain ⟨k, -, rfl⟩ := List.mem_map.mp hm
      unfold quoteLine
      split <;> simp
    rw [← intercalate_newline hsome]
    exact writes_quote (h.imp fun _ _ hn => hn.isWritten) framed

end Writer
end Canonmark.Markdown
