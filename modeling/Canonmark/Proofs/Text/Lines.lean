import Canonmark.Text.Blank
import Mathlib.Data.List.Basic
import Mathlib.Data.List.TakeWhile

/-! Texts and their lines: lines that are written under each other are found again, and trimming
leaves alone what has no white space at its ends. -/
namespace Canonmark.Text

variable {p : Char → Bool} {s : Chars}

theorem splitWhere_append (h : ∀ c ∈ s, p c = false) {sign : Char} (hsign : p sign = true)
    (rest : Chars) : splitWhere p (s ++ sign :: rest) = s :: splitWhere p rest := by
  induction s with
  | nil => simp [splitWhere, hsign]
  | cons c s ih =>
    rw [List.cons_append, splitWhere, h c (by simp), ih fun d hd => h d (by simp [hd])]
    rfl

theorem splitWhere_of_forall (h : ∀ c ∈ s, p c = false) : splitWhere p s = [s] := by
  induction s with
  | nil => rfl
  | cons c s ih =>
    rw [splitWhere, h c (by simp), ih fun d hd => h d (by simp [hd])]
    rfl

/-- Every text is what stands before the first sign, or what the sign parts. -/
theorem splitWhere_cases (p : Char → Bool) (s : Chars) :
    ((∀ c ∈ s, p c = false) ∧ splitWhere p s = [s]) ∨
      ∃ piece sign rest, s = piece ++ sign :: rest ∧ (∀ c ∈ piece, p c = false) ∧ p sign = true ∧
        splitWhere p s = piece :: splitWhere p rest := by
  induction s with
  | nil => exact .inl ⟨nofun, rfl⟩
  | cons c s ih =>
    by_cases hc : p c
    · exact .inr ⟨[], c, s, rfl, nofun, hc, by rw [splitWhere, if_pos hc]⟩
    · rw [Bool.not_eq_true] at hc
      obtain ⟨hs, _⟩ | ⟨piece, sign, rest, rfl, hpiece, hsign, _⟩ := ih
      · have hall : ∀ d ∈ c :: s, p d = false := List.forall_mem_cons.mpr ⟨hc, hs⟩
        exact .inl ⟨hall, splitWhere_of_forall hall⟩
      · have hall : ∀ d ∈ c :: piece, p d = false := List.forall_mem_cons.mpr ⟨hc, hpiece⟩
        exact .inr ⟨c :: piece, sign, rest, rfl, hall, hsign, splitWhere_append hall hsign rest⟩

theorem lines_append (h : '\n' ∉ s) (rest : Chars) : lines (s ++ '\n' :: rest) = s :: lines rest :=
  splitWhere_append (fun c hc => by simp [show c ≠ '\n' from fun heq => h (heq ▸ hc)]) rfl rest

theorem lines_of_not_mem (h : '\n' ∉ s) : lines s = [s] :=
  splitWhere_of_forall fun c hc => by simp [show c ≠ '\n' from fun heq => h (heq ▸ hc)]

theorem lines_cases (s : Chars) :
    ('\n' ∉ s ∧ lines s = [s]) ∨
      ∃ line rest, s = line ++ '\n' :: rest ∧ '\n' ∉ line ∧ lines s = line :: lines rest := by
  obtain ⟨h, hs⟩ | ⟨line, sign, rest, hs, hline, hsign, hlines⟩ := splitWhere_cases (· == '\n') s
  · exact .inl ⟨fun hmem => by simpa using h _ hmem, hs⟩
  · rw [beq_iff_eq] at hsign
    subst hsign
    exact .inr ⟨line, rest, hs, fun hmem => by simpa using hline _ hmem, hlines⟩

theorem intercalate_cons (sep l : Chars) (ls : List Chars) :
    List.intercalate sep (l :: ls) = l ++ ls.flatMap (sep ++ ·) := by
  induction ls generalizing l with
  | nil => simp
  | cons m ls ih =>
    rw [List.intercalate_cons_cons, ih, List.flatMap_cons, List.append_assoc, List.append_assoc]

@[simp] theorem unlines_singleton (l : Chars) : unlines [l] = l := by
  simp [unlines]

theorem unlines_cons (l : Chars) {ls : List Chars} (h : ls ≠ []) :
    unlines (l :: ls) = l ++ '\n' :: unlines ls := by
  cases ls with
  | nil => exact absurd rfl h
  | cons m ls => simp [unlines, List.intercalate_cons_cons]

/-- Under a line stands what follows its end. -/
theorem unlines_append (ls : List Chars) {ms : List Chars} (h : ms ≠ []) :
    unlines (ls ++ ms) = ls.flatMap (· ++ ['\n']) ++ unlines ms := by
  induction ls with
  | nil => rfl
  | cons l ls ih =>
    rw [List.cons_append, unlines_cons l (by simp [h]), ih, List.flatMap_cons]
    simp

theorem flatMap_end {ls : List Chars} (h : ls ≠ []) :
    ls.flatMap (· ++ ['\n']) = unlines ls ++ ['\n'] := by
  have hlast : unlines (ls ++ [[]]) = unlines ls ++ ['\n'] := by
    induction ls with
    | nil => exact absurd rfl h
    | cons l ls ih =>
      cases ls with
      | nil =>
        rw [List.singleton_append, unlines_cons l (by simp), unlines_singleton, unlines_singleton]
      | cons m ls =>
        rw [List.cons_append, unlines_cons l (by simp), unlines_cons l (by simp), ih (by simp)]
        simp
  rw [← hlast, unlines_append ls (by simp), unlines_singleton, List.append_nil]

/-- Lines written under each other are found again. -/
theorem lines_unlines {ls : List Chars} (some : ls ≠ []) (single : ∀ l ∈ ls, '\n' ∉ l) :
    lines (unlines ls) = ls := by
  induction ls with
  | nil => exact absurd rfl some
  | cons l ls ih =>
    obtain ⟨hl, hls⟩ := List.forall_mem_cons.mp single
    cases ls with
    | nil => rw [unlines_singleton, lines_of_not_mem hl]
    | cons m ls => rw [unlines_cons l (by simp), lines_append hl, ih (by simp) hls]

theorem lines_ne_nil (s : Chars) : lines s ≠ [] := by
  obtain ⟨_, hs⟩ | ⟨_, _, _, _, hs⟩ := lines_cases s <;> simp [hs]

/-- A line is a stretch of its text that holds no end of a line. -/
theorem infix_of_mem_lines {l : Chars} (h : l ∈ lines s) : '\n' ∉ l ∧ l <:+: s := by
  induction hn : s.length using Nat.strongRecOn generalizing s with
  | _ n ih =>
    obtain ⟨hs, hlines⟩ | ⟨line, rest, rfl, hline, hlines⟩ := lines_cases s
    · rw [hlines, List.mem_singleton] at h
      subst h
      exact ⟨hs, List.infix_rfl⟩
    · rw [hlines, List.mem_cons] at h
      obtain rfl | h := h
      · exact ⟨hline, (List.prefix_append l _).isInfix⟩
      · obtain ⟨hl, hwithin⟩ := ih rest.length (by simp at hn; omega) h rfl
        exact ⟨hl,
          hwithin.trans ((List.suffix_cons '\n' rest).trans (List.suffix_append line _)).isInfix⟩

theorem unlines_lines (s : Chars) : unlines (lines s) = s := by
  induction hn : s.length using Nat.strongRecOn generalizing s with
  | _ n ih =>
    obtain ⟨_, hlines⟩ | ⟨line, rest, rfl, _, hlines⟩ := lines_cases s
    · rw [hlines, unlines_singleton]
    · rw [hlines, unlines_cons line (lines_ne_nil rest),
        ih rest.length (by simp at hn; omega) rest rfl]

/-- Each line with its end makes up the text again, if the last one ends as well. -/
theorem flatMap_lines (s : Chars) : (lines s).flatMap (· ++ ['\n']) = s ++ ['\n'] := by
  rw [flatMap_end (lines_ne_nil s), unlines_lines]

/-- The end of a line parts the lines before it from those after it. -/
theorem lines_newline (s t : Chars) : lines (s ++ '\n' :: t) = lines s ++ lines t := by
  have htext : unlines (lines s ++ lines t) = s ++ '\n' :: t := by
    rw [unlines_append _ (lines_ne_nil t), flatMap_lines, unlines_lines, List.append_assoc]
    rfl
  have hsingle : ∀ l ∈ lines s ++ lines t, '\n' ∉ l :=
    List.forall_mem_append.mpr
      ⟨fun l hl => (infix_of_mem_lines hl).1, fun l hl => (infix_of_mem_lines hl).1⟩
  rw [← htext, lines_unlines (by simp [lines_ne_nil]) hsingle]

/-- What holds no line end stands on the first line of what follows. -/
theorem lines_append_left {t l : Chars} {ls : List Chars} (h : '\n' ∉ s)
    (hlines : lines t = l :: ls) : lines (s ++ t) = (s ++ l) :: ls := by
  obtain ⟨hnone, hsame⟩ | ⟨line, rest, rfl, hline, hsame⟩ := lines_cases t
  · obtain ⟨rfl, rfl⟩ := List.cons.inj (hsame.symm.trans hlines)
    exact lines_of_not_mem (by simp [h, hnone])
  · obtain ⟨rfl, rfl⟩ := List.cons.inj (hsame.symm.trans hlines)
    rw [← List.append_assoc, lines_append (by simp [h, hline])]

theorem mem_unlines {c : Char} {ls : List Chars} (h : c ∈ unlines ls) :
    c = '\n' ∨ ∃ l ∈ ls, c ∈ l := by
  by_cases hls : ls = []
  · rw [hls] at h
    cases h
  · have hmem : c ∈ ls.flatMap (· ++ ['\n']) := by simp [flatMap_end hls, h]
    obtain ⟨l, hl, hc⟩ := List.mem_flatMap.mp hmem
    obtain hc | hc := List.mem_append.mp hc
    · exact .inr ⟨l, hl, hc⟩
    · exact .inl (List.mem_singleton.mp hc)

theorem head?_unlines {l : Chars} (h : l ≠ []) (ls : List Chars) :
    (unlines (l :: ls)).head? = l.head? := by
  obtain ⟨c, l, rfl⟩ := List.exists_cons_of_ne_nil h
  cases ls with
  | nil => rw [unlines_singleton]
  | cons m ls => rw [unlines_cons _ (by simp), List.cons_append, List.head?_cons, List.head?_cons]

theorem getLast?_unlines (ls : List Chars) {l : Chars} (h : l ≠ []) :
    (unlines (ls ++ [l])).getLast? = l.getLast? := by
  rw [unlines_append ls (by simp), unlines_singleton, List.getLast?_append_of_ne_nil _ h]

theorem dropWhile_of_head {c : Char} {cs : Chars} (h : p c = false) :
    (c :: cs).dropWhile p = c :: cs :=
  List.dropWhile_cons_of_neg (by simp [h])

theorem dropEndWhile_of_getLast {c : Char} (h : p c = false) (s : Chars) :
    dropEndWhile p (s ++ [c]) = s ++ [c] := by
  rw [dropEndWhile, List.reverse_append, List.reverse_singleton, List.singleton_append,
    dropWhile_of_head h]
  simp

/-- A text that begins and ends with signs on which `p` does not hold. -/
def Bounded (p : Char → Bool) (s : Chars) : Prop :=
  (∃ c ∈ s.head?, p c = false) ∧ ∃ c ∈ s.getLast?, p c = false

theorem bounded_of_forall (some : s ≠ []) (h : ∀ c ∈ s, p c = false) : Bounded p s :=
  ⟨⟨s.head some, by rw [List.head?_eq_some_head some]; rfl, h _ (List.head_mem some)⟩,
    s.getLast some, by rw [List.getLast?_eq_some_getLast some]; rfl, h _ (List.getLast_mem some)⟩

theorem Bounded.mono {q : Char → Bool} (h : Bounded p s) (hq : ∀ c, p c = false → q c = false) :
    Bounded q s :=
  let ⟨⟨c, hc, hp⟩, d, hd, hp'⟩ := h
  ⟨⟨c, hc, hq c hp⟩, d, hd, hq d hp'⟩

theorem Bounded.dropWhile (h : Bounded p s) : s.dropWhile p = s := by
  obtain ⟨⟨c, hc, hp⟩, _⟩ := h
  obtain ⟨cs, rfl⟩ := List.head?_eq_some_iff.mp hc
  exact dropWhile_of_head hp

theorem Bounded.dropEndWhile (h : Bounded p s) : dropEndWhile p s = s := by
  obtain ⟨_, c, hc, hp⟩ := h
  obtain ⟨t, rfl⟩ := List.getLast?_eq_some_iff.mp hc
  exact dropEndWhile_of_getLast hp t

theorem Bounded.trim (h : Bounded isBlank s) : trim s = s := by
  rw [Text.trim, trimStart, trimEnd, h.dropWhile, h.dropEndWhile]

theorem dropEndWhile_getLast (c : Char) (h : c ∈ (dropEndWhile p s).getLast?) : p c = false := by
  rw [dropEndWhile, List.getLast?_reverse] at h
  have hnot := List.head?_dropWhile_not p s.reverse
  rw [Option.mem_def.mp h] at hnot
  exact hnot

theorem dropEndWhile_ne_nil {c : Char} (h : c ∈ s) (hc : p c = false) : dropEndWhile p s ≠ [] := by
  intro hnil
  have hparts := dropEndWhile_append_takeEndWhile p s
  rw [hnil, List.nil_append] at hparts
  rw [← hparts, takeEndWhile, List.mem_reverse] at h
  have hall := List.all_eq_true.mp (List.all_takeWhile (p := p) (l := s.reverse)) c h
  rw [hc] at hall
  cases hall

/-- The longest end goes on as far as `p` holds. -/
theorem takeEndWhile_concat (c : Char) (s : Chars) :
    takeEndWhile p (s ++ [c]) = if p c then takeEndWhile p s ++ [c] else [] := by
  rw [takeEndWhile, List.reverse_concat, List.takeWhile_cons]
  split
  · rw [List.reverse_cons, takeEndWhile]
  · rfl

/-- An end on which `p` holds, after a sign on which it does not hold. -/
theorem takeEndWhile_of_forall {c : Char} (h : p c = false) (s : Chars)
    {t : Chars} (ht : ∀ d ∈ t, p d) :
    takeEndWhile p (s ++ c :: t) = t ∧ dropEndWhile p (s ++ c :: t) = s ++ [c] := by
  have hreverse : (s ++ c :: t).reverse = t.reverse ++ c :: s.reverse := by simp
  have hall : ∀ d ∈ t.reverse, p d := fun d hd => ht d (List.mem_reverse.mp hd)
  constructor
  · rw [takeEndWhile, hreverse, List.takeWhile_append_of_pos hall,
      List.takeWhile_cons_of_neg (by simp [h])]
    simp
  · rw [dropEndWhile, hreverse, List.dropWhile_append_of_pos hall, dropWhile_of_head h]
    simp

/-- White space after a text without any at its ends is all that trimming takes away. -/
theorem Bounded.trim_append (h : Bounded isBlank s) {t : Chars} (ht : ∀ c ∈ t, isBlank c) :
    Text.trim (s ++ t) = s := by
  obtain ⟨⟨c, hc, hp⟩, d, hd, hq⟩ := h
  obtain ⟨cs, hcs⟩ := List.head?_eq_some_iff.mp hc
  obtain ⟨ds, hds⟩ := List.getLast?_eq_some_iff.mp hd
  have hstart : trimStart (s ++ t) = ds ++ d :: t := by
    rw [trimStart, hcs, List.cons_append, dropWhile_of_head hp, ← List.cons_append, ← hcs, hds]
    simp
  rw [Text.trim, hstart, trimEnd, (takeEndWhile_of_forall hq ds ht).2, hds]

/-- What stands before a sign on which `p` does not hold makes no difference to the end. -/
theorem takeEndWhile_append {t : Chars} (h : ∃ c ∈ t, p c = false) :
    takeEndWhile p (s ++ t) = takeEndWhile p t := by
  obtain ⟨c, hc, hp⟩ := h
  have hshort : (t.reverse.takeWhile p).length ≠ t.reverse.length := by
    intro hlength
    have hall := (List.takeWhile_prefix p (l := t.reverse)).eq_of_length hlength
    have hmem : c ∈ t.reverse.takeWhile p := by rwa [hall, List.mem_reverse]
    rw [List.all_eq_true.mp List.all_takeWhile c hmem] at hp
    cases hp
  rw [takeEndWhile, takeEndWhile, List.reverse_append, List.takeWhile_append, if_neg hshort]

theorem isBlank_of_mem_takeWhile {c : Char} (h : c ∈ s.takeWhile isBlank) : isBlank c :=
  List.mem_takeWhile_imp h

theorem isBlank_of_mem_takeEndWhile {c : Char} (h : c ∈ takeEndWhile isBlank s) : isBlank c :=
  List.mem_takeWhile_imp (List.mem_reverse.mp h)

theorem isBlank_of_trim_eq_nil (h : trim s = []) : ∀ c ∈ s, isBlank c := by
  intro c hc
  by_contra hink
  rw [Bool.not_eq_true] at hink
  have hstart : c ∈ trimStart s := by
    rw [← List.takeWhile_append_dropWhile (p := isBlank) (l := s), List.mem_append] at hc
    obtain hc | hc := hc
    · exact absurd (isBlank_of_mem_takeWhile hc) (by simp [hink])
    · exact hc
  exact dropEndWhile_ne_nil hstart hink h

/-- A text that is not blank is what trimming leaves of it, between white space. -/
theorem trim_parts (h : trim s ≠ []) :
    s = s.takeWhile isBlank ++ trim s ++ takeEndWhile isBlank s ∧ Bounded isBlank (trim s) := by
  have hstart : trimStart s = trim s ++ takeEndWhile isBlank (trimStart s) :=
    (dropEndWhile_append_takeEndWhile isBlank (trimStart s)).symm
  have hlast : ∃ c ∈ (trim s).getLast?, isBlank c = false :=
    ⟨(trim s).getLast h, List.getLast?_eq_some_getLast h,
      dropEndWhile_getLast _ (List.getLast?_eq_some_getLast h)⟩
  obtain ⟨c, hc, hblank⟩ := hlast
  have hfirst : ∃ c ∈ (trim s).head?, isBlank c = false := by
    refine ⟨(trim s).head h, List.head?_eq_some_head h, ?_⟩
    have hnot := List.head?_dropWhile_not isBlank s
    have hhead : (s.dropWhile isBlank).head? = some ((trim s).head h) := by
      rw [← trimStart, hstart, List.head?_append_of_ne_nil _ h, List.head?_eq_some_head h]
    rw [hhead] at hnot
    exact hnot
  have hend : takeEndWhile isBlank s = takeEndWhile isBlank (trimStart s) := by
    conv => lhs; rw [← List.takeWhile_append_dropWhile (p := isBlank) (l := s)]
    refine takeEndWhile_append ⟨c, ?_, hblank⟩
    rw [← trimStart, hstart]
    exact List.mem_append_left _ (List.mem_of_getLast? hc)
  refine ⟨?_, hfirst, c, hc, hblank⟩
  rw [hend, List.append_assoc, ← hstart, trimStart, List.takeWhile_append_dropWhile]

end Canonmark.Text
