import Canonmark.Markdown.Line
import Canonmark.Markdown.Writer
import Canonmark.Proofs.Text.Lines

/-! Blocks of lines that are put under each other, and the lines of the text that they make up. -/
namespace Canonmark.Markdown

/-- Blocks of lines under each other, with the lines of a gap between two. -/
def stacked (gap : List Chars) : List (List Chars) → List Chars
  | [] => []
  | ls :: lss => ls ++ lss.flatMap (gap ++ ·)

variable {gap ls : List Chars} {lss : List (List Chars)}

theorem mem_stacked {l : Chars} (h : l ∈ stacked gap lss) : l ∈ gap ∨ ∃ ls ∈ lss, l ∈ ls := by
  cases lss with
  | nil => cases h
  | cons ls lss =>
    obtain h | h := List.mem_append.mp h
    · exact .inr ⟨ls, List.mem_cons_self, h⟩
    · obtain ⟨m, hm, h⟩ := List.mem_flatMap.mp h
      exact (List.mem_append.mp h).imp_right fun h => ⟨m, List.mem_cons_of_mem _ hm, h⟩

theorem unlines_stacked (hls : ls ≠ []) (hlss : ∀ m ∈ lss, m ≠ []) :
    Text.unlines (stacked gap (ls :: lss)) =
      Text.unlines ls ++ lss.flatMap fun m => '\n' :: gap.flatMap (· ++ ['\n']) ++
      Text.unlines m := by
  rw [stacked]
  induction lss generalizing ls with
  | nil => simp
  | cons m lss ih =>
    obtain ⟨hm, hlss⟩ := List.forall_mem_cons.mp hlss
    have hfirst : Text.unlines (ls ++ (gap ++ m)) =
        Text.unlines ls ++ '\n' :: gap.flatMap (· ++ ['\n']) ++ Text.unlines m := by
      rw [← List.append_assoc, Text.unlines_append _ hm, List.flatMap_append, Text.flatMap_end hls]
      simp
    rw [List.flatMap_cons, ← List.append_assoc, ih (by simp [hls]) hlss, hfirst, List.flatMap_cons]
    simp

theorem isSpace_of_not_isBlank {c : Char} (h : Text.isBlank c = false) : isSpace c = false := by
  by_contra hspace
  have hcases : c = ' ' ∨ c = '\t' := by simpa [isSpace, or_iff_not_imp_left] using hspace
  obtain rfl | rfl := hcases <;> exact absurd h (by decide)

theorem isLineSpace_of_not_isBlank {c : Char} (h : Text.isBlank c = false) :
    isLineSpace c = false := by
  have hne : c ≠ '\n' := by
    rintro rfl
    exact absurd h (by decide)
  simp [isLineSpace, isSpace_of_not_isBlank h, hne]

/-- Lines that make up a text which neither begins nor ends with white space. -/
structure IsFramed (ls : List Chars) : Prop where
  single : ∀ l ∈ ls, '\n' ∉ l ∧ '\r' ∉ l
  first : ∃ c cs rest, ls = (c :: cs) :: rest ∧ Text.isBlank c = false
  last : ∃ rest cs c, ls = rest ++ [cs ++ [c]] ∧ Text.isBlank c = false

namespace IsFramed

theorem ne_nil (h : IsFramed ls) : ls ≠ [] := by
  obtain ⟨c, cs, rest, rfl, _⟩ := h.first
  simp

theorem stacked (some : lss ≠ []) (framed : ∀ ls ∈ lss, IsFramed ls)
    (single : ∀ l ∈ gap, '\n' ∉ l ∧ '\r' ∉ l) : IsFramed (stacked gap lss) := by
  obtain ⟨ls, lss, rfl⟩ := List.exists_cons_of_ne_nil some
  obtain ⟨hls, hlss⟩ := List.forall_mem_cons.mp framed
  refine ⟨fun l hl => ?_, ?_, ?_⟩
  · obtain hl | ⟨m, hm, hl⟩ := mem_stacked hl
    · exact single l hl
    · exact (framed m hm).single l hl
  · obtain ⟨c, cs, rest, rfl, hc⟩ := hls.first
    exact ⟨c, cs, _, rfl, hc⟩
  · rw [Markdown.stacked]
    obtain rfl | ⟨ms, m, rfl⟩ := lss.eq_nil_or_concat
    · simpa using hls.last
    · obtain ⟨rest, cs, c, rfl, hc⟩ := (hlss m (by simp)).last
      exact ⟨ls ++ (ms.flatMap (gap ++ ·) ++ (gap ++ rest)), cs, c, by simp, hc⟩

theorem quoted (h : IsFramed ls) : IsFramed (ls.map Writer.quoteLine) where
  single := by
    intro l hl
    obtain ⟨m, hm, rfl⟩ := List.mem_map.mp hl
    obtain ⟨hn, hr⟩ := h.single m hm
    unfold Writer.quoteLine
    split <;> simp [hn, hr]
  first := by
    obtain ⟨c, cs, rest, rfl, _⟩ := h.first
    exact ⟨'>', ' ' :: c :: cs, _, rfl, rfl⟩
  last := by
    obtain ⟨rest, cs, c, rfl, hc⟩ := h.last
    refine ⟨rest.map Writer.quoteLine, '>' :: ' ' :: cs, c, ?_, hc⟩
    simp [Writer.quoteLine]

theorem bounded (h : IsFramed ls) : Text.Bounded Text.isBlank (Text.unlines ls) := by
  constructor
  · obtain ⟨c, cs, rest, rfl, hc⟩ := h.first
    exact ⟨c, by rw [Text.head?_unlines (by simp)]; simp, hc⟩
  · obtain ⟨rest, cs, c, rfl, hc⟩ := h.last
    exact ⟨c, by rw [Text.getLast?_unlines rest (by simp)]; simp, hc⟩

theorem lines_unlines (h : IsFramed ls) : Text.lines (Text.unlines ls) = ls :=
  Text.lines_unlines h.ne_nil fun l hl => (h.single l hl).1

end IsFramed

theorem normalizeEnds_eq {s : Chars} (h : '\r' ∉ s) : normalizeEnds s = s := by
  fun_induction normalizeEnds s with
  | case1 => rfl
  | case2 cs => simp at h
  | case3 c cs _ ih =>
    rw [List.mem_cons, not_or] at h
    rw [ih h.2, if_neg (by simpa using Ne.symm h.1)]

/-- The lines of a text are those that it was made of. -/
theorem IsFramed.linesOf (h : IsFramed ls) :
    linesOf (Text.unlines ls) = ls.map fun text => { text } := by
  have hreturn : '\r' ∉ Text.unlines ls := by
    intro hmem
    obtain hr | ⟨l, hl, hr⟩ := Text.mem_unlines hmem
    · exact absurd hr (by decide)
    · exact (h.single l hl).2 hr
  have hlast : (ls.getLast? == some []) = false := by
    obtain ⟨rest, cs, c, rfl, _⟩ := h.last
    simp
  rw [Markdown.linesOf, normalizeEnds_eq hreturn, h.lines_unlines, hlast]
  rfl

end Canonmark.Markdown
