import Canonmark.Proofs.Text.Lines

/-! Texts of which every line but the first is empty or indented. -/
namespace Canonmark.Text

variable {w : Nat} {s t : Chars} {c d : Char}

/-- What may follow the end of a line: another one, or the indentation. -/
def Indented (w : Nat) (s : Chars) : Prop := s.head? = some '\n' ∨ List.replicate w ' ' <+: s

/-- A text of which every line but the first is empty or indented. Where it ends with a line, the
indentation of the next one is part of it. -/
def Hangs (w : Nat) : Chars → Prop
  | [] => True
  | c :: s => (c = '\n' → Indented w s) ∧ Hangs w s

@[simp] theorem hangs_nil : Hangs w [] := trivial

/-- Characters that do not indent. -/
def IsInk (c : Char) : Prop := c ≠ ' ' ∧ c ≠ '\n'

instance (c : Char) : Decidable (IsInk c) := inferInstanceAs (Decidable (_ ∧ _))

theorem isInk_of_isBlank (h : isBlank c = false) : IsInk c := by
  constructor
  all_goals
    rintro rfl
    cases h

theorem Indented.append (h : Indented w s) (t : Chars) : Indented w (s ++ t) := by
  obtain hhead | hpad := h
  · exact .inl (by simp [hhead])
  · exact .inr (hpad.trans (List.prefix_append s t))

theorem Indented.mono {w' : Nat} (h : Indented w' s) (le : w ≤ w') : Indented w s := by
  refine h.imp_right fun hpad => List.IsPrefix.trans ?_ hpad
  rw [← Nat.add_sub_of_le le, ← List.replicate_append_replicate]
  exact List.prefix_append _ _

/-- What follows the first ink makes no difference, and neither does the ink itself. -/
theorem indented_ink (hc : IsInk c) (hd : IsInk d) (s t t' : Chars) :
    Indented w (s ++ c :: t) ↔ Indented w (s ++ d :: t') := by
  have hpad : ∀ {c t}, IsInk c →
      (List.replicate w ' ' <+: s ++ c :: t ↔ List.replicate w ' ' <+: s) := by
    intro c t hc
    induction s generalizing w with
    | nil =>
      cases w with
      | zero => simp
      | succ w => simp [List.replicate_succ, List.cons_prefix_cons, hc.1.symm]
    | cons a s ih =>
      cases w with
      | zero => simp
      | succ w => simp [List.replicate_succ, List.cons_prefix_cons, ih]
  have hhead : ∀ {c t}, IsInk c → ((s ++ c :: t).head? = some '\n' ↔ s.head? = some '\n') := by
    intro c t hc
    cases s with
    | nil => simp [hc.2]
    | cons a s => simp
  rw [Indented, Indented, hpad hc, hpad hd, hhead hc, hhead hd]

theorem hangs_zero (s : Chars) : Hangs 0 s := by
  induction s with
  | nil => trivial
  | cons c s ih => exact ⟨fun _ => .inr (by simp), ih⟩

theorem hangs_of_not_mem (h : '\n' ∉ s) : Hangs w s := by
  induction s with
  | nil => trivial
  | cons c s ih =>
    rw [List.mem_cons, not_or] at h
    exact ⟨fun hc => absurd hc.symm h.1, ih h.2⟩

theorem Hangs.append (hs : Hangs w s) (ht : Hangs w t) : Hangs w (s ++ t) := by
  induction s with
  | nil => exact ht
  | cons c s ih => exact ⟨fun hc => (hs.1 hc).append t, ih hs.2⟩

theorem Hangs.mono {w' : Nat} (h : Hangs w' s) (le : w ≤ w') : Hangs w s := by
  induction s with
  | nil => trivial
  | cons c s ih => exact ⟨fun hc => (h.1 hc).mono le, ih h.2⟩

/-- At ink a text can be parted. -/
theorem hangs_ink (hc : IsInk c) : Hangs w (s ++ c :: t) ↔ Hangs w (s ++ [c]) ∧ Hangs w t := by
  induction s with
  | nil => simp [Hangs, hc.2]
  | cons a s ih =>
    rw [List.cons_append, List.cons_append, Hangs, Hangs, ih, indented_ink hc hc s t [], and_assoc]

theorem hangs_ink_congr (hc : IsInk c) (hd : IsInk d) :
    Hangs w (s ++ [c]) ↔ Hangs w (s ++ [d]) := by
  induction s with
  | nil => simp [Hangs, hc.2, hd.2]
  | cons a s ih =>
    rw [List.cons_append, List.cons_append, Hangs, Hangs, ih, indented_ink hc hd s [] []]

/-- Ink may be put before ink. -/
theorem Hangs.insert {ink : Chars} (h : Hangs w (s ++ c :: t)) (hc : IsInk c)
    (hink : ∀ d ∈ ink, IsInk d) : Hangs w (s ++ (ink ++ c :: t)) := by
  cases ink with
  | nil => exact h
  | cons d ink =>
    obtain ⟨hd, hink⟩ := List.forall_mem_cons.mp hink
    obtain ⟨hs, ht⟩ := (hangs_ink hc).mp h
    have hrest : Hangs w (ink ++ c :: t) := by
      have hfree : '\n' ∉ ink ++ [c] := by
        intro hmem
        obtain hmem | hmem := List.mem_append.mp hmem
        · exact (hink _ hmem).2 rfl
        · exact hc.2 (List.mem_singleton.mp hmem).symm
      exact (hangs_ink hc).mpr ⟨hangs_of_not_mem hfree, ht⟩
    rw [List.cons_append, hangs_ink hd]
    exact ⟨(hangs_ink_congr hc hd).mp hs, hrest⟩

/-- Ink may be put after ink. -/
theorem Hangs.insert_after {ink : Chars} (h : Hangs w (s ++ c :: t)) (hc : IsInk c)
    (hink : '\n' ∉ ink) : Hangs w (s ++ c :: (ink ++ t)) := by
  obtain ⟨hs, ht⟩ := (hangs_ink hc).mp h
  exact (hangs_ink hc).mpr ⟨hs, (hangs_of_not_mem hink).append ht⟩

theorem Hangs.after_newline {line rest : Chars} (h : Hangs w (line ++ '\n' :: rest)) :
    Indented w rest ∧ Hangs w rest := by
  induction line with
  | nil => exact ⟨h.1 rfl, h.2⟩
  | cons c line ih => exact ih h.2

theorem Hangs.getLast?_ne (h : Hangs w s) (indented : w ≠ 0) : s.getLast? ≠ some '\n' := by
  intro hlast
  obtain ⟨t, rfl⟩ := List.getLast?_eq_some_iff.mp hlast
  obtain hhead | hpad := h.after_newline.1
  · cases hhead
  · exact indented (by simpa using hpad)

theorem Indented.first_line (h : Indented w s) {first : Chars} {others : List Chars}
    (hlines : lines s = first :: others) : first = [] ∨ List.replicate w ' ' <+: first := by
  obtain ⟨hnone, hsame⟩ | ⟨line, rest, rfl, hnone, hsame⟩ := lines_cases s
  · rw [hlines] at hsame
    cases hsame
    exact h.imp (fun hhead => absurd (List.mem_of_mem_head? hhead) hnone) id
  · rw [hlines] at hsame
    cases hsame
    obtain hhead | hpad := h
    · cases first with
      | nil => exact .inl rfl
      | cons c first =>
        rw [List.cons_append, List.head?_cons, Option.some.injEq] at hhead
        exact absurd (hhead ▸ List.mem_cons_self) hnone
    · -- The indentation holds no end of a line, so that the first line holds all of it.
      have hline : first ++ ['\n'] <+: first ++ '\n' :: rest := by simp
      obtain hpad | hline := List.prefix_or_prefix_of_prefix hpad hline
      · obtain heq | hpad := List.prefix_concat_iff.mp hpad
        · have hmem : '\n' ∈ List.replicate w ' ' := by simp [heq]
          exact absurd (List.eq_of_mem_replicate hmem) (by decide)
        · exact .inr hpad
      · have hmem : '\n' ∈ List.replicate w ' ' := hline.subset (by simp)
        exact absurd (List.eq_of_mem_replicate hmem) (by decide)

/-- Every line but the first is empty or indented. -/
theorem Hangs.lines (h : Hangs w s) :
    ∀ line ∈ (lines s).tail, line = [] ∨ List.replicate w ' ' <+: line := by
  induction hn : s.length using Nat.strongRecOn generalizing s with
  | _ n ih =>
    obtain ⟨_, hlines⟩ | ⟨line, rest, rfl, _, hlines⟩ := lines_cases s
    · rw [hlines]
      nofun
    · obtain ⟨hindented, hrest⟩ := h.after_newline
      obtain ⟨first, others, hall⟩ := List.exists_cons_of_ne_nil (lines_ne_nil rest)
      have hothers := ih rest.length (by simp at hn; omega) hrest rfl
      rw [hall, List.tail_cons] at hothers
      rw [hlines, List.tail_cons, hall]
      exact List.forall_mem_cons.mpr ⟨hindented.first_line hall, hothers⟩

/-- Lines hang when they are put under each other with their indentation. -/
theorem hangs_intercalate {ls : List Chars} (h : ∀ l ∈ ls, '\n' ∉ l) :
    Hangs w (List.intercalate ('\n' :: List.replicate w ' ') ls) := by
  cases ls with
  | nil => trivial
  | cons l ls =>
    rw [intercalate_cons]
    obtain ⟨hl, hls⟩ := List.forall_mem_cons.mp h
    refine (hangs_of_not_mem hl).append ?_
    induction ls with
    | nil => trivial
    | cons m ls ih =>
      obtain ⟨hm, hls⟩ := List.forall_mem_cons.mp hls
      have hline : Hangs w ('\n' :: List.replicate w ' ' ++ m) := by
        refine ⟨fun _ => .inr (List.prefix_append _ _), hangs_of_not_mem ?_⟩
        simp [hm]
      exact hline.append (ih (by simp_all) hls)

end Canonmark.Text
