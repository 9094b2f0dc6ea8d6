import Canonmark.Markdown.Writer
import Mathlib.Data.List.Basic
import Mathlib.Data.List.Flatten

/-! The characters of a text that are no white space, and how they come through all that the writer
does to a text. -/
namespace Canonmark.Markdown

open Text (isBlank)

/-- The characters that are no white space. -/
def solid (s : Chars) : Chars := s.filter (!isBlank ·)

@[simp] theorem solid_nil : solid [] = [] := rfl

@[simp] theorem solid_append (s t : Chars) : solid (s ++ t) = solid s ++ solid t :=
  List.filter_append s t

theorem solid_cons (c : Char) (s : Chars) : solid (c :: s) = solid [c] ++ solid s :=
  solid_append [c] s

theorem solid_sublist (s : Chars) : (solid s).Sublist s := List.filter_sublist

theorem solid_cons_of_isBlank {c : Char} (h : isBlank c) (s : Chars) :
    solid (c :: s) = solid s := by
  rw [solid, List.filter_cons_of_neg (by simp [h]), ← solid]

theorem solid_reverse (s : Chars) : solid s.reverse = (solid s).reverse := List.filter_reverse

theorem solid_mono {s t : Chars} (h : s.Sublist t) : (solid s).Sublist (solid t) := h.filter _

section Blank

variable {p : Char → Bool} (blank : ∀ c, p c → isBlank c)

include blank

theorem solid_dropWhile (s : Chars) : solid (s.dropWhile p) = solid s := by
  induction s with
  | nil => rfl
  | cons c s ih =>
    by_cases hc : p c
    · rw [List.dropWhile_cons_of_pos hc, ih, solid_cons_of_isBlank (blank c hc)]
    · rw [List.dropWhile_cons_of_neg hc]

theorem solid_dropEndWhile (s : Chars) : solid (Text.dropEndWhile p s) = solid s := by
  rw [Text.dropEndWhile, solid_reverse, solid_dropWhile blank, solid_reverse, List.reverse_reverse]

theorem flatMap_solid_splitWhere (s : Chars) : (Text.splitWhere p s).flatMap solid = solid s := by
  induction s with
  | nil => rfl
  | cons c s ih =>
    rw [Text.splitWhere]
    split
    · rename_i hc
      rw [List.flatMap_cons, solid_nil, List.nil_append, ih, solid_cons_of_isBlank (blank c hc)]
    · split
      · rename_i hnil
        rw [hnil] at ih
        rw [solid_cons, ← ih]
        rfl
      · rename_i piece pieces hpieces
        rw [hpieces, List.flatMap_cons] at ih
        rw [List.flatMap_cons, solid_cons, List.append_assoc, ih, ← solid_cons]

end Blank

theorem solid_trim (s : Chars) : solid (Text.trim s) = solid s := by
  rw [Text.trim, Text.trimEnd, Text.trimStart, solid_dropEndWhile fun _ h => h,
    solid_dropWhile fun _ h => h]

theorem isBlank_of_newline {c : Char} (h : c == '\n') : isBlank c := by
  rw [beq_iff_eq.mp h]
  rfl

theorem flatMap_solid_lines (s : Chars) : (Text.lines s).flatMap solid = solid s :=
  flatMap_solid_splitWhere (fun _ => isBlank_of_newline) s

theorem solid_intercalate {sep : Chars} (h : solid sep = []) (ls : List Chars) :
    solid (sep.intercalate ls) = ls.flatMap solid := by
  induction ls with
  | nil => rfl
  | cons l ls ih =>
    cases ls with
    | nil => simp
    | cons m ls =>
      rw [List.intercalate_cons_cons, solid_append, solid_append, h, List.append_nil, ih]
      rfl

theorem solid_unlines (ls : List Chars) : solid (Text.unlines ls) = ls.flatMap solid :=
  solid_intercalate rfl ls

theorem solid_spaces (n : Nat) : solid (List.replicate n ' ') = [] := by
  rw [solid, List.filter_replicate_of_neg (by decide)]

theorem solid_newline (indent : Nat) : solid (Writer.newline indent) = [] := by
  rw [Writer.newline, solid_cons_of_isBlank rfl, solid_spaces]

namespace Writer

theorem solid_indentLines (indent : Nat) (s : Chars) : solid (indentLines indent s) = solid s := by
  rw [indentLines, ← flatMap_solid_lines s]
  split
  · rename_i hnil
    rw [hnil]
    rfl
  · rename_i line rest hlines
    have hindented : ∀ l : Chars,
        solid (if l.isEmpty then [] else List.replicate indent ' ' ++ l) = solid l := by
      intro l
      split
      · rename_i hempty
        rw [List.isEmpty_iff.mp hempty]
      · rw [solid_append, solid_spaces, List.nil_append]
    rw [solid_unlines, hlines, List.flatMap_cons, List.flatMap_cons, List.flatMap_map]
    simp only [hindented]

theorem sublist_codeBlock (mark text info : Chars) :
    (solid text).Sublist (solid (codeBlock mark text info)) := by
  rw [codeBlock, solid_unlines]
  split
  · rename_i hempty
    rw [List.isEmpty_iff.mp hempty]
    exact List.nil_sublist _
  · have hbody : solid (if text.getLast? == some '\n' then text.dropLast else text) =
        solid text := by
      split
      · rename_i hlast
        have hsplit := List.dropLast_append_getLast? '\n' (beq_iff_eq.mp hlast)
        conv => rhs; rw [← hsplit]
        rw [solid_append]
        exact (List.append_nil _).symm
      · rfl
    simp only [List.flatMap_cons, hbody]
    exact (List.sublist_append_left _ _).trans (List.sublist_append_right _ _)

theorem sublist_codeSpan (text : Chars) : text.Sublist (codeSpan text) := by
  simp only [codeSpan]
  split
  · have hspaced := (List.Sublist.refl text).cons ' '
    exact (hspaced.trans (List.sublist_append_right _ _)).trans (List.sublist_append_left _ _)
  · exact (List.sublist_append_right _ _).trans (List.sublist_append_left _ _)

theorem sublist_escapeFrom (s : Chars) (before : Option Char) (number : Option Nat) :
    s.Sublist (escapeFrom before number s) := by
  induction s generalizing before number with
  | nil => exact List.nil_sublist _
  | cons c s ih =>
    have hboth : ∀ (escaped : Bool) (next : Option Nat), (c :: s).Sublist (if escaped then
        '\\' :: c :: escapeFrom (some c) next s else c :: escapeFrom (some c) next s) := by
      rintro (_ | _) next
      · exact (ih _ _).cons_cons c
      · exact ((ih _ _).cons_cons c).cons _
    exact hboth _ _

theorem sublist_plainText (style : Style) (text : String) :
    text.toList.Sublist (plainText style text) := by
  unfold plainText
  split
  · exact sublist_escapeFrom _ _ _
  · exact List.Sublist.refl _

theorem sublist_escapeClosingHashes (line : Chars) : line.Sublist (escapeClosingHashes line) := by
  have hline := Text.dropEndWhile_append_takeEndWhile (· == '#') line
  have hescaped : line.Sublist (Text.dropEndWhile (· == '#') line ++
      '\\' :: Text.takeEndWhile (· == '#') line) := by
    conv => lhs; rw [← hline]
    exact (List.Sublist.refl _).append ((List.Sublist.refl _).cons _)
  have hboth : ∀ b : Bool, line.Sublist (if b then Text.dropEndWhile (· == '#') line ++
      '\\' :: Text.takeEndWhile (· == '#') line else line) := by
    rintro (_ | _)
    · exact List.Sublist.refl line
    · exact hescaped
  exact hboth _

theorem sublist_headingContent (content : Chars) : content.Sublist (headingContent content) := by
  unfold headingContent
  split
  · rename_i hlast
    have hcontent := List.dropLast_append_getLast? '\n' (beq_iff_eq.mp hlast)
    conv => lhs; rw [← hcontent]
    exact (sublist_escapeClosingHashes _).append (List.Sublist.refl _)
  · exact sublist_escapeClosingHashes content

theorem sublist_quoteLine (line : Chars) : line.Sublist (quoteLine line) := by
  unfold quoteLine
  split
  · rename_i hempty
    rw [List.isEmpty_iff.mp hempty]
    exact List.nil_sublist _
  · exact ((List.Sublist.refl line).cons _).cons _

theorem sublist_quoted (indent : Nat) (s : Chars) :
    (solid s).Sublist
      (solid (List.intercalate (newline indent) ((Text.lines s).map quoteLine))) := by
  rw [solid_intercalate (solid_newline indent), List.flatMap_map, ← flatMap_solid_lines s]
  exact List.Sublist.flatMap_right _ fun l _ => solid_mono (sublist_quoteLine l)

/-- A text with an odd number of backslashes at its end has one there. -/
theorem dropLast_append_backslash {s : Chars}
    (h : (Text.takeEndWhile (· == '\\') s).length % 2 == 1) : s.dropLast ++ ['\\'] = s := by
  obtain rfl | ⟨t, c, rfl⟩ := s.eq_nil_or_concat'
  · cases h
  · by_cases hc : c = '\\'
    · rw [hc, List.dropLast_concat]
    · simp [Text.takeEndWhile, hc] at h

theorem sublist_delimited (delimiter inner : Chars) :
    (solid inner).Sublist (solid (delimited delimiter inner)) := by
  rw [← solid_trim inner]
  simp only [delimited]
  split
  · rename_i hempty
    rw [List.isEmpty_iff.mp hempty]
    exact List.nil_sublist _
  · split
    · rename_i hmoved
      rw [Bool.and_eq_true] at hmoved
      have hcontent := dropLast_append_backslash hmoved.2
      have hbefore : (Text.trim inner).dropLast.Sublist (inner.takeWhile isBlank ++ delimiter ++
          (Text.trim inner).dropLast ++ delimiter) :=
        (List.sublist_append_right _ _).trans (List.sublist_append_left _ _)
      have hmark : ['\\'].Sublist ('\\' :: Text.takeEndWhile isBlank inner) :=
        (List.nil_sublist _).cons_cons _
      conv => lhs; rw [← hcontent]
      exact solid_mono (hbefore.append hmark)
    · exact solid_mono ((List.sublist_append_right _ _).trans ((List.sublist_append_left _ _).trans
        (List.sublist_append_left _ _)))

end Writer
end Canonmark.Markdown
