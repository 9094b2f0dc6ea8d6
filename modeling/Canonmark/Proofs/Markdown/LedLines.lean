import Canonmark.Proofs.Markdown.Escaping
import Canonmark.Proofs.Markdown.PlainLines

/-! Lines of a paragraph that begin no block. -/
namespace Canonmark.Markdown

variable {levels : Nat} {l : Chars} {ls : List Chars}

/-- The lines of a text are framed if they are quiet and the last one ends in ink. -/
theorem isFramed_lines {s : Chars} (quiet : ∀ l ∈ Text.lines s, IsQuiet l)
    (ends : ∃ c ∈ s.getLast?, Text.isBlank c = false) (plain : '\r' ∉ s) :
    IsFramed (Text.lines s) where
  single l hl := by
    obtain ⟨hsingle, hwithin⟩ := Text.infix_of_mem_lines hl
    exact ⟨hsingle, fun hmem => plain (hwithin.subset hmem)⟩
  first := by
    obtain ⟨l, ls, hlines⟩ := List.exists_cons_of_ne_nil (Text.lines_ne_nil s)
    obtain ⟨c, hc, hink⟩ := (quiet l (hlines ▸ List.mem_cons_self)).ink
    obtain ⟨cs, rfl⟩ := List.head?_eq_some_iff.mp hc
    exact ⟨c, cs, ls, hlines, hink⟩
  last := by
    obtain hnil | ⟨ls, l, hlines⟩ := (Text.lines s).eq_nil_or_concat'
    · exact absurd hnil (Text.lines_ne_nil s)
    obtain ⟨d, hd, -⟩ := (quiet l (by simp [hlines])).ink
    have hlast : s.getLast? = l.getLast? := by
      rw [← Text.unlines_lines s, hlines,
        Text.getLast?_unlines ls (List.ne_nil_of_mem (List.mem_of_mem_head? hd))]
    obtain ⟨c, hc, hink⟩ := ends
    obtain ⟨cs, rfl⟩ := List.getLast?_eq_some_iff.mp (hlast ▸ hc)
    exact ⟨ls, cs, c, hlines, hink⟩

/-- A line that begins, but for asterisks, with a sign with which no block begins. -/
structure IsLed (l : Chars) : Prop where
  sign : ∃ c ∈ (l.dropWhile (· == '*')).head?, Text.isBlank c = false ∧
    c ∉ ['#', '>', '<', '-', '_', '+', '=']
  fence : ¬['~', '~', '~'] <+: l ∧ ¬['\x60', '\x60', '\x60'] <+: l
  number : ∀ c ∈ (l.dropWhile Char.isDigit).head?, c ≠ '.' ∧ c ≠ ')'

theorem fence?_eq_none {c : Char} {cs : Chars} (short : ¬[c, c, c] <+: c :: cs) (indent : Nat) :
    Start.fence? indent (c :: cs) = none := by
  have hrun : (c :: cs).takeWhile (· == c) =
      List.replicate ((c :: cs).takeWhile (· == c)).length c :=
    List.eq_replicate_of_mem fun d hd => by simpa using List.mem_takeWhile_imp hd
  have hsize : ((c :: cs).takeWhile (· == c)).length < 3 := by
    refine Nat.not_le.mp fun hlong => short ?_
    obtain ⟨n, hn⟩ := Nat.exists_eq_add_of_le hlong
    have hstart : List.replicate 3 c <+: (c :: cs).takeWhile (· == c) := by
      rw [hrun, hn, List.replicate_add]
      exact List.prefix_append _ _
    exact hstart.trans (List.takeWhile_prefix _)
  rw [Start.fence?]
  simp only [if_pos hsize]

theorem marker?_of_number {c : Char} {cs : Chars} (other : c ≠ '-' ∧ c ≠ '+' ∧ c ≠ '*')
    (number : ∀ d ∈ ((c :: cs).dropWhile Char.isDigit).head?, d ≠ '.' ∧ d ≠ ')') :
    Start.marker? (c :: cs) = none := by
  have hdrop : (c :: cs).drop ((c :: cs).takeWhile Char.isDigit).length =
      (c :: cs).dropWhile Char.isDigit := by
    have hleft : ((c :: cs).takeWhile Char.isDigit ++ (c :: cs).dropWhile Char.isDigit).drop
        ((c :: cs).takeWhile Char.isDigit).length = (c :: cs).dropWhile Char.isDigit :=
      List.drop_left
    rwa [List.takeWhile_append_dropWhile] at hleft
  have hbullet : (c == '-' || c == '+' || c == '*') = false := by simp [other]
  rw [Start.marker?, hbullet]
  simp only [Bool.false_eq_true, if_false, hdrop]
  split
  · rfl
  · split
    · rename_i heq
      exact absurd rfl (number _ (by rw [heq]; rfl)).1
    · rename_i heq
      exact absurd rfl (number _ (by rw [heq]; rfl)).2
    · rfl

/-- A line that begins with one asterisk begins no block if something else is on it. -/
theorem find?_of_star {d : Char} {ds : Chars} (space : isSpace d = false)
    (other : ∃ c ∈ d :: ds, isSpace c = false ∧ c ≠ '*') (context : Context) (nests : Bool)
    (column : Nat) : Start.find? context nests ⟨column, '*' :: d :: ds⟩ = none := by
  have hitem : Start.item? ⟨column, '*' :: d :: ds⟩ = none := by
    refine item?_of_gapless rfl (fun m n hmarker => ?_) column
    obtain ⟨-, rfl⟩ : Marker.bullet '*' = m ∧ 1 = n := by simpa [Start.marker?] using hmarker
    exact ⟨d, ds, rfl, space⟩
  have hbreak : Start.isThematicBreak ('*' :: d :: ds) = false := by
    obtain ⟨c, hc, hspace, hstar⟩ := other
    have hmem : c ∈ (d :: ds).filter (!isSpace ·) := by simpa [hspace] using hc
    have hstars : ((d :: ds).filter (!isSpace ·)).all (· == '*') = false := by
      rw [List.all_eq_false]
      exact ⟨c, hmem, by simpa using hstar⟩
    rw [Start.isThematicBreak, List.filter_cons_of_pos (by rfl)]
    simp only [hstars, Bool.and_false]
  rw [Start.find?, isIndented_of_head rfl, content_of_head rfl, indent_of_head rfl,
    quoteRest?_of_head rfl (by decide), heading?_of_head (by decide), fence?_of_head (by decide),
    blockKind?_of_head (by decide), hbreak, hitem]
  simp

/-- On such a line there is a sign that is neither white space nor a bullet. -/
theorem IsLed.exists_other (h : IsLed l) : ∃ c ∈ l, isSpace c = false ∧ c ∉ ['-', '*', '+'] := by
  obtain ⟨c, hc, hink, hother⟩ := h.sign
  have hstar : c ≠ '*' := by
    have hhead := List.head?_dropWhile_not (· == '*') l
    rw [hc] at hhead
    simpa using hhead
  refine ⟨c, (List.dropWhile_suffix _).subset (List.mem_of_mem_head? hc),
    isSpace_of_not_isBlank hink, ?_⟩
  simp only [List.mem_cons, List.not_mem_nil, or_false, not_or] at hother ⊢
  tauto

theorem IsLed.isQuiet (h : IsLed l) : IsQuiet l := by
  obtain ⟨c, hc, hink, hother⟩ := h.sign
  simp only [List.mem_cons, List.not_mem_nil, or_false, not_or] at hother
  have hspace := isSpace_of_not_isBlank hink
  cases l with
  | nil => cases hc
  | cons d ds =>
    by_cases hstar : d = '*'
    · subst hstar
      obtain ⟨e, es, rfl⟩ : ∃ e es, ds = e :: es := by
        cases ds with
        | nil => cases hc
        | cons e es => exact ⟨e, es, rfl⟩
      rw [List.dropWhile_cons_of_pos rfl] at hc
      have hnext : isSpace e = false := by
        by_cases hstar : e = '*'
        · rw [hstar]
          rfl
        · rw [List.dropWhile_cons_of_neg (by simpa using hstar)] at hc
          rwa [Option.some.inj hc]
      obtain ⟨f, hf, hink, hbullet⟩ := h.exists_other
      have hstar : f ≠ '*' := fun heq => hbullet (by simp [heq])
      have hmem : f ∈ e :: es := (List.mem_cons.mp hf).resolve_left hstar
      refine ⟨⟨'*', rfl, rfl⟩, find?_of_star hnext ⟨f, hmem, hink, hstar⟩,
        underline?_of_head rfl (by decide)⟩
    · rw [List.dropWhile_cons_of_neg (by simpa using hstar)] at hc
      obtain rfl := Option.some.inj hc
      have hfence : Start.fence? 0 (d :: ds) = none := by
        by_cases htilde : d = '~'
        · subst htilde
          exact fence?_eq_none h.fence.1 0
        by_cases htick : d = '\x60'
        · subst htick
          exact fence?_eq_none h.fence.2 0
        exact fence?_of_head ⟨htilde, htick⟩ 0
      have hitem : ∀ column, Start.item? ⟨column, d :: ds⟩ = none := by
        intro column
        rw [Start.item?, atContent_of_head hspace, marker?_of_number (by tauto) h.number]
        rfl
      refine ⟨⟨d, rfl, hink⟩, fun context nests column => ?_, underline?_of_head hspace (by tauto)⟩
      exact find?_of_head hspace (by simp; tauto) hfence (hitem column) context nests

end Canonmark.Markdown
