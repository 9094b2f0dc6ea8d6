import Canonmark.Proofs.Markdown.Meeting
import Canonmark.Proofs.Markdown.Visits

/-! The lines of a text that stands in an item. -/
namespace Canonmark.Markdown

open Writer (separator)

variable {s t : Chars}

theorem normalizeEnds_append (h : s.getLast? = some '\r' → t.head? ≠ some '\n') :
    normalizeEnds (s ++ t) = normalizeEnds s ++ normalizeEnds t := by
  fun_induction normalizeEnds s with
  | case1 => rfl
  | case2 cs ih =>
    have hcs : cs.getLast? = some '\r' → t.head? ≠ some '\n' := by
      intro hlast
      refine h ?_
      rw [List.getLast?_cons_cons, List.getLast?_cons, hlast]
      rfl
    rw [List.cons_append, List.cons_append, normalizeEnds, ih hcs, List.cons_append]
  | case3 c cs other ih =>
    have hcs : cs.getLast? = some '\r' → t.head? ≠ some '\n' := by
      intro hlast
      refine h ?_
      rw [List.getLast?_cons, hlast]
      rfl
    have hother : ∀ rest, c = '\r' → cs ++ t = '\n' :: rest → False := by
      rintro rest rfl hrest
      cases cs with
      | nil => exact h rfl (by rw [List.nil_append] at hrest; rw [hrest]; rfl)
      | cons d cs => exact other cs rfl (by rw [(List.cons.inj hrest).1])
    rw [List.cons_append, normalizeEnds.eq_3 c _ hother, ih hcs, List.cons_append]

theorem normalizeEnds_singleton {c : Char} (h : Text.isBlank c = false) :
    normalizeEnds [c] = [c] := by
  have hne : c ≠ '\r' := by
    rintro rfl
    cases h
  simp [normalizeEnds, hne]

/-- A text keeps its first and last sign if they are ink. -/
theorem bounded_normalizeEnds (h : Text.Bounded Text.isBlank s) :
    Text.Bounded Text.isBlank (normalizeEnds s) := by
  obtain ⟨⟨c, hc, hfirst⟩, d, hd, hlast⟩ := h
  have hd' : d ≠ '\n' := by
    rintro rfl
    cases hlast
  have hc' : c ≠ '\r' := by
    rintro rfl
    cases hfirst
  constructor
  · obtain ⟨cs, rfl⟩ := List.head?_eq_some_iff.mp hc
    rw [← List.singleton_append, normalizeEnds_append (by simp [hc']),
      normalizeEnds_singleton hfirst]
    exact ⟨c, rfl, hfirst⟩
  · obtain ⟨cs, rfl⟩ := List.getLast?_eq_some_iff.mp hd
    rw [normalizeEnds_append (by simp [hd']), normalizeEnds_singleton hlast]
    exact ⟨d, List.getLast?_concat, hlast⟩

/-- The lines of a text with ink at both ends. -/
structure IsInkedText (s : Chars) (c : Char) (cs : Chars) (ls : List Chars) : Prop where
  bounded : Text.Bounded Text.isBlank s
  lines : Text.lines (normalizeEnds s) = (c :: cs) :: ls
  ink : Text.isBlank c = false
  last : ls = [] ∨ ∃ before last, ls = before ++ [last] ∧ HasInk last

theorem exists_isInkedText (h : Text.Bounded Text.isBlank s) :
    ∃ c cs ls, IsInkedText s c cs ls := by
  obtain ⟨⟨c, hc, hfirst⟩, d, hd, hlast⟩ := bounded_normalizeEnds h
  obtain ⟨l, ls, hlines⟩ := List.exists_cons_of_ne_nil (Text.lines_ne_nil (normalizeEnds s))
  have hunlines := Text.unlines_lines (normalizeEnds s)
  have hends : ∀ {x : Char}, Text.isBlank x = false → x ≠ '\n' := by
    rintro _ hx rfl
    cases hx
  obtain ⟨cs, rfl⟩ : ∃ cs, l = c :: cs := by
    cases l with
    | nil =>
      exfalso
      rw [hlines] at hunlines
      cases ls with
      | nil =>
        rw [← hunlines] at hc
        cases hc
      | cons m ls =>
        rw [← hunlines, Text.unlines_cons [] (by simp)] at hc
        exact hends hfirst (Option.some.inj hc).symm
    | cons e cs =>
      rw [← hunlines, hlines, Text.head?_unlines (by simp)] at hc
      exact ⟨cs, by rw [Option.some.inj hc]⟩
  refine ⟨c, cs, ls, h, hlines, hfirst, ?_⟩
  obtain rfl | ⟨before, last, rfl⟩ := ls.eq_nil_or_concat'
  · exact .inl rfl
  · refine .inr ⟨before, last, rfl, d, ?_, hlast⟩
    rw [← hunlines, hlines, ← List.cons_append] at hd
    by_cases hempty : last = []
    · subst hempty
      rw [Text.unlines_append _ (by simp), Text.unlines_singleton, List.append_nil,
        Text.flatMap_end (by simp), List.getLast?_concat] at hd
      exact absurd (Option.some.inj hd).symm (hends hlast)
    · rw [Text.getLast?_unlines _ hempty] at hd
      exact List.mem_of_getLast? hd

theorem IsInkedText.single {c : Char} {cs : Chars} {ls : List Chars} (h : IsInkedText s c cs ls) :
    ∀ l ∈ (c :: cs) :: ls, '\n' ∉ l := fun _ hl => (Text.infix_of_mem_lines (h.lines ▸ hl)).1

theorem IsInkedText.unlines_eq {c : Char} {cs : Chars} {ls : List Chars}
    (h : IsInkedText s c cs ls) : Text.unlines ((c :: cs) :: ls) = normalizeEnds s := by
  rw [← h.lines, Text.unlines_lines]

/-- What a text of one line begins with, its first line begins with. -/
theorem IsInkedText.first_of_append {p : Chars} {c : Char} {cs : Chars}
    {ls : List Chars} (h : IsInkedText (p ++ t) c cs ls) (hp : '\n' ∉ p ∧ '\r' ∉ p) :
    ∃ l, c :: cs = p ++ l ∧ Text.lines (normalizeEnds t) = l :: ls := by
  have hends : normalizeEnds (p ++ t) = p ++ normalizeEnds t := by
    rw [normalizeEnds_append fun hlast => absurd (List.mem_of_getLast? hlast) hp.2,
      normalizeEnds_eq hp.2]
  obtain ⟨l, ls', hlines⟩ := List.exists_cons_of_ne_nil (Text.lines_ne_nil (normalizeEnds t))
  have hall := h.lines
  rw [hends, Text.lines_append_left hp.1 hlines] at hall
  obtain ⟨hfirst, rfl⟩ := List.cons.inj hall
  exact ⟨l, hfirst.symm, hlines⟩

theorem exists_normalizeEnds_newline (s : Chars) :
    ∃ u, normalizeEnds (s ++ ['\n']) = u ++ ['\n'] := by
  by_cases hreturn : s.getLast? = some '\r'
  · obtain ⟨init, rfl⟩ := List.getLast?_eq_some_iff.mp hreturn
    refine ⟨normalizeEnds init, ?_⟩
    rw [List.append_assoc, normalizeEnds_append (by simp)]
    rfl
  · exact ⟨normalizeEnds s, normalizeEnds_append fun hlast => absurd hlast hreturn⟩

/-- What stands after a line end is the last line. -/
theorem IsInkedText.last_of_newline {c : Char} {cs : Chars} {ls : List Chars}
    (h : IsInkedText (s ++ '\n' :: t) c cs ls) (ht : '\n' ∉ t ∧ '\r' ∉ t) :
    ∃ before, ls = before ++ [t] := by
  obtain ⟨u, hu⟩ := exists_normalizeEnds_newline s
  have hends : normalizeEnds (s ++ '\n' :: t) = u ++ '\n' :: t := by
    rw [List.append_cons, normalizeEnds_append (by simp), hu, normalizeEnds_eq ht.2,
      List.append_assoc]
    rfl
  obtain ⟨l, before, hlines⟩ := List.exists_cons_of_ne_nil (Text.lines_ne_nil u)
  have hall := h.lines
  rw [hends, Text.lines_newline, Text.lines_of_not_mem ht.1, hlines] at hall
  exact ⟨before, (List.cons.inj hall).2.symm⟩

/-- Lines as they are written. -/
def plainLines (ls : List Chars) : List Line := ls.map fun text => { text }

theorem unlines_headed (p l : Chars) (ls : List Chars) :
    Text.unlines ((p ++ l) :: ls) = p ++ Text.unlines (l :: ls) := by
  cases ls with
  | nil => rw [Text.unlines_singleton, Text.unlines_singleton]
  | cons m ls =>
    rw [Text.unlines_cons (p ++ l) (List.cons_ne_nil m ls),
      Text.unlines_cons l (List.cons_ne_nil m ls), List.append_assoc]

/-- A text is read by the lines that it is made of, if the last of them is not empty. -/
theorem linesOf_of_unlines {ls : List Chars} (h : normalizeEnds s = Text.unlines ls)
    (single : ∀ l ∈ ls, '\n' ∉ l) (last : ∃ before l, ls = before ++ [l] ∧ l ≠ []) :
    linesOf s = plainLines ls := by
  obtain ⟨before, l, rfl, hl⟩ := last
  have hlast : ((before ++ [l]).getLast? == some []) = false := by simpa using hl
  rw [linesOf, h, Text.lines_unlines (by simp) single, hlast]
  rfl

variable {c : Char} {cs : Chars} {ls : List Chars}

theorem IsInkedText.exists_last (h : IsInkedText s c cs ls) (p : Chars) (before : List Chars) :
    ∃ before' l, before ++ (p ++ c :: cs) :: ls = before' ++ [l] ∧ l ≠ [] := by
  obtain rfl | ⟨init, last, rfl, d, hd, -⟩ := h.last
  · exact ⟨before, _, rfl, by simp⟩
  · exact ⟨before ++ (p ++ c :: cs) :: init, last, by simp, List.ne_nil_of_mem hd⟩

theorem IsInkedText.single_prefix (h : IsInkedText s c cs ls) {p : Chars} (hp : '\n' ∉ p) :
    ∀ l ∈ (p ++ c :: cs) :: ls, '\n' ∉ l := by
  obtain ⟨hfirst, hothers⟩ := List.forall_mem_cons.mp h.single
  exact List.forall_mem_cons.mpr ⟨by simp [hp, hfirst], hothers⟩

theorem IsInkedText.normalizeEnds_item (h : IsInkedText s c cs ls) :
    normalizeEnds ('-' :: ' ' :: s) = Text.unlines ((['-', ' '] ++ c :: cs) :: ls) := by
  rw [unlines_headed, h.unlines_eq]
  exact normalizeEnds_append (s := ['-', ' ']) (by simp)

/-- The lines of a text after a marker. -/
theorem linesOf_item (h : IsInkedText s c cs ls) :
    linesOf ('-' :: ' ' :: s) = bulletLine (c :: cs) :: plainLines ls :=
  linesOf_of_unlines h.normalizeEnds_item (h.single_prefix (by simp)) (h.exists_last ['-', ' '] [])

variable {c' : Char} {cs' : Chars} {ls' : List Chars}

/-- The lines of two texts after a marker, with or without a blank line between them. -/
theorem linesOf_items (h : IsInkedText s c cs ls) (h' : IsInkedText t c' cs' ls') (tight : Bool) :
    linesOf ('-' :: ' ' :: s ++ separator tight 2 ++ t) = bulletLine (c :: cs) :: (plainLines ls ++
      ((if tight then [] else [{ text := [] }]) ++ indentedLine (c' :: cs') ::
        plainLines ls')) := by
  have hlast : ('-' :: ' ' :: s).getLast? ≠ some '\r' := by
    obtain ⟨-, d, hd, hblank⟩ := h.bounded
    obtain ⟨init, rfl⟩ := List.getLast?_eq_some_iff.mp hd
    rw [← List.cons_append, ← List.cons_append, List.getLast?_concat]
    rintro ⟨⟩
    cases hblank
  have hseparator : normalizeEnds (separator tight 2 ++ t) = separator tight 2 ++
      normalizeEnds t := by
    rw [normalizeEnds_append (by cases tight <;> simp [separator]),
      normalizeEnds_eq (by cases tight <;> simp [separator])]
  have hlines : normalizeEnds ('-' :: ' ' :: s ++ separator tight 2 ++ t) =
      Text.unlines (((['-', ' '] ++ c :: cs) :: ls ++ if tight then [] else [[]]) ++
        ([' ', ' '] ++ c' :: cs') :: ls') := by
    rw [List.append_assoc, normalizeEnds_append fun hreturn => absurd hreturn hlast,
      h.normalizeEnds_item, hseparator, Text.unlines_append _ (List.cons_ne_nil _ _),
      List.flatMap_append, Text.flatMap_end (List.cons_ne_nil _ _), unlines_headed [' ', ' '],
      h'.unlines_eq]
    cases tight <;> simp [separator]
  have hgap : ∀ l ∈ if tight then [] else [([] : Chars)], '\n' ∉ l := by cases tight <;> simp
  rw [linesOf_of_unlines hlines ?_ (h'.exists_last [' ', ' '] _)]
  · cases tight <;> simp [plainLines, bulletLine, indentedLine]
  · rw [List.forall_mem_append, List.forall_mem_append]
    exact ⟨⟨h.single_prefix (by simp), hgap⟩, h'.single_prefix (by simp)⟩

end Canonmark.Markdown
