import Canonmark.Proofs.Markdown.PlainLines
import Canonmark.Proofs.Markdown.WrittenList

/-! How the lines of a list are read: each marker begins an item, and lines that are indented by the
width of the marker belong to the item. -/
namespace Canonmark.Markdown

variable {levels width : Nat} {s : Chars} {c : Char} {cs : Chars}

theorem indentFrom_replicate (space : isSpace c = false) (width column : Nat) :
    Line.indentFrom column (List.replicate width ' ' ++ c :: cs) = width := by
  induction width generalizing column with
  | zero => exact indent_of_head space column
  | succ width ih =>
    rw [List.replicate_succ, List.cons_append, Line.indentFrom, beq_self_eq_true, if_pos rfl,
      ih, Nat.add_comm]

theorem dropIndent_replicate (width column : Nat) (s : Chars) :
    (Line.mk column (List.replicate width ' ' ++ s)).dropIndent width = ⟨column + width, s⟩ := by
  rw [Line.dropIndent]
  induction width generalizing column with
  | zero => exact dropIndent_zero ⟨column, s⟩
  | succ width ih =>
    have hstep : Line.dropFrom (width + 1) column (' ' :: (List.replicate width ' ' ++ s)) =
        Line.dropFrom width (column + 1) (List.replicate width ' ' ++ s) := by
      simp [Line.dropFrom]
    rw [List.replicate_succ, List.cons_append]
    dsimp only at ih ⊢
    rw [hstep, ih, Nat.add_right_comm, Nat.add_assoc]

theorem isBlank_replicate (space : isSpace c = false) (width column : Nat) :
    (Line.mk column (List.replicate width ' ' ++ c :: cs)).isBlank = false := by
  simp [Line.isBlank, space]

/-- A line that is indented by the width of an item belongs to it. -/
theorem rest?_replicate (space : isSpace c = false) (width column : Nat) :
    (Layer.item width).rest? ⟨column, List.replicate width ' ' ++ c :: cs⟩ =
      some ⟨column + width, c :: cs⟩ := by
  rw [Layer.rest?, isBlank_replicate space, Line.indent, indentFrom_replicate space,
    dropIndent_replicate]
  simp

theorem rest?_of_head (space : isSpace c = false) (some : 0 < width) (column : Nat) :
    (Layer.item width).rest? ⟨column, c :: cs⟩ = none := by
  rw [Layer.rest?, isBlank_of_head space, indent_of_head space]
  simp [Nat.not_le.mpr some]

/-- A line that can stand behind a bullet: it begins with ink, and not all of it is made of the
bullet. -/
structure FollowsBullet (sign : Char) (s : Chars) : Prop where
  ink : ∃ c cs, s = c :: cs ∧ Text.isBlank c = false
  other : ∃ c ∈ s, isSpace c = false ∧ c ≠ sign

theorem FollowsBullet.of_words (words : IsWords s) {sign : Char} (alone : sign.isAlphanum = false) :
    FollowsBullet sign s := by
  obtain ⟨c, cs, rfl, hc⟩ := words.head
  exact ⟨⟨c, cs, rfl, isBlank_of_isAlphanum hc⟩, c, List.mem_cons_self, isSpace_of_isAlphanum hc,
    ne_of_isAlphanum hc sign alone⟩

/-- Marks that begin items with the given markers, all of one list, before lines that can follow a
bullet. -/
structure IsMarking (sign : Char) (count : Nat) (mark : Nat → Chars)
    (marker : Nat → Marker) : Prop where
  find : ∀ i < count, ∀ context, context ≠ .paragraph → ∀ s, FollowsBullet sign s → ∀ column,
    Start.find? context true ⟨column, mark i ++ s⟩ =
      some (.item ⟨marker i, (mark i).length, some ⟨column + (mark i).length, s⟩⟩)
  head : ∀ i, ∃ c cs, mark i = c :: cs ∧ Text.isBlank c = false
  single : ∀ i, '\n' ∉ mark i ∧ '\r' ∉ mark i
  agrees : ∀ i j, (marker i).agrees (marker j)

variable {count : Nat} {mark : Nat → Chars} {marker : Nat → Marker} {i : Nat} {sign : Char}
    {step : Growth}

theorem start_item (nonempty : s ≠ [])
    (h : ∀ o column, Tip.idle.advance levels o ⟨column, s⟩ = step) (m : Marker) (w column : Nat)
    (o : Outlook) (l : Line) :
    Tip.start (levels + 1) o (.item ⟨m, w, some ⟨column, s⟩⟩) l = step.inItem m [] w [] := by
  have hsome : s.isEmpty = false := by simpa using nonempty
  have hfresh := h (o.enter (.item w)) column
  rw [Tip.advance, Tip.fresh] at hfresh
  rw [Tip.start]
  simp only [hsome, Bool.false_eq_true, if_false, hfresh]

theorem IsMarking.advance_idle (h : IsMarking sign count mark marker) (hi : i < count)
    (follows : FollowsBullet sign s) (hs : ∀ o column, Tip.idle.advance levels o ⟨column, s⟩ = step)
    (o : Outlook) (column : Nat) :
    Tip.idle.advance (levels + 1) o ⟨column, mark i ++ s⟩ =
      step.inItem (marker i) [] (mark i).length [] := by
  have hfind : Start.find? .free (decide (0 < levels + 1)) ⟨column, mark i ++ s⟩ = _ :=
    h.find i hi .free (by simp) s follows column
  have hsome : s ≠ [] := by
    obtain ⟨c, cs, rfl, -⟩ := follows.ink
    exact List.cons_ne_nil c cs
  obtain ⟨c, cs, hmark, hc⟩ := h.head i
  rw [hmark, List.cons_append] at hfind ⊢
  rw [advance_idle_of_find? (isSpace_of_not_isBlank hc) hfind, start_item hsome hs]

/-- A marker that agrees with that of the list closes the item before it. -/
theorem IsMarking.advance_item (h : IsMarking sign count mark marker) (hi : i < count)
    (follows : FollowsBullet sign s) (hs : ∀ o column, Tip.idle.advance levels o ⟨column, s⟩ = step)
    {j : Nat} {items : List (List Block)} (some : 0 < width)
    (done : List Block) (inner : Tip) (o : Outlook) (column : Nat) :
    (Tip.item (marker j) items width done inner).advance (levels + 1) o ⟨column, mark i ++ s⟩ =
      step.inItem (marker j) (items ++ [done ++ inner.closeIn true]) (mark i).length [] := by
  have hfind := h.find i hi .lazy (by simp) s follows column
  have hsome : s ≠ [] := by
    obtain ⟨c, cs, rfl, -⟩ := follows.ink
    exact List.cons_ne_nil c cs
  obtain ⟨c, cs, hmark, hc⟩ := h.head i
  have hspace := isSpace_of_not_isBlank hc
  rw [hmark, List.cons_append] at hfind ⊢
  rw [Tip.advance, isBlank_of_head hspace, rest?_of_head hspace some]
  simp only [Bool.false_and, Bool.false_eq_true, if_false]
  rw [Tip.leaveItem]
  simp only [Nat.zero_lt_succ, decide_true, hfind, h.agrees j i, if_true]
  rw [start_item hsome hs]
  rfl

/-- A marker that a space and ink follow begins an item. -/
theorem item?_of_marker {d : Char} {ds : Chars}
    (space : isSpace c = false) (ink : Text.isBlank d = false) {m : Marker}
    (h : Start.marker? (c :: cs ++ ' ' :: d :: ds) = some (m, (c :: cs).length)) (column : Nat) :
    Start.item? ⟨column, c :: cs ++ ' ' :: d :: ds⟩ =
      some ⟨m, (c :: cs ++ [' ']).length, some ⟨column + (c :: cs ++ [' ']).length, d :: ds⟩⟩ := by
  have hspace := isSpace_of_not_isBlank ink
  have hafter : (Line.mk column (c :: cs ++ ' ' :: d :: ds)).after (c :: cs).length =
      ⟨column + (c :: cs).length, ' ' :: d :: ds⟩ := by
    rw [Line.after, List.drop_left]
  have hgap : (Line.mk (column + (c :: cs).length) (' ' :: d :: ds)).indent = 1 :=
    indentFrom_replicate hspace 1 _
  have hdrop : (Line.mk (column + (c :: cs).length) (' ' :: d :: ds)).dropIndent 1 =
      ⟨column + (c :: cs).length + 1, d :: ds⟩ := dropIndent_replicate 1 _ (d :: ds)
  have hblank : (Line.mk (column + (c :: cs).length) (' ' :: d :: ds)).isBlank = false :=
    isBlank_replicate hspace 1 _
  have hblanks : Start.dropBlanks ⟨column + (c :: cs).length + 1, d :: ds⟩ =
      ⟨column + (c :: cs).length + 1, d :: ds⟩ := by
    simp [Start.dropBlanks, Line.after, ink]
  have hindent : (Line.mk column (c :: cs ++ ' ' :: d :: ds)).indent = 0 :=
    indent_of_head space column
  rw [Start.item?, List.cons_append, atContent_of_head space, ← List.cons_append, h]
  simp only [Option.bind_some, hafter, hgap, hdrop, hblank, hblanks, hindent]
  simp
  omega

/-- A marker that a space and ink follow is the start of a line. -/
theorem find?_of_marker {d : Char} {ds : Chars} (space : isSpace c = false)
    (other : ∀ sign ∈ ['#', '>', '<', '~', '\x60'], c ≠ sign)
    (unbroken : Start.isThematicBreak (c :: cs ++ ' ' :: d :: ds) = false)
    (ink : Text.isBlank d = false) {m : Marker}
    (h : Start.marker? (c :: cs ++ ' ' :: d :: ds) = some (m, (c :: cs).length))
    {context : Context} (breaks : context ≠ .paragraph) (column : Nat) :
    Start.find? context true ⟨column, c :: cs ++ ' ' :: d :: ds⟩ =
      some (.item ⟨m, (c :: cs ++ [' ']).length,
        some ⟨column + (c :: cs ++ [' ']).length, d :: ds⟩⟩) := by
  have hitem := item?_of_marker space ink h column
  rw [List.cons_append] at hitem unbroken ⊢
  rw [Start.find?, isIndented_of_head space, content_of_head space,
    indent_of_head space, if_pos rfl, quoteRest?_of_head space (other '>' (by decide)),
    heading?_of_head (other '#' (by decide)),
    fence?_of_head ⟨other '~' (by decide), other '\x60' (by decide)⟩,
    blockKind?_of_head (other '<' (by decide)), unbroken, if_pos rfl, hitem]
  simp [breaks]

/-- The marks of a bullet list. -/
def bulletMark (sign : Char) (_ : Nat) : Chars := [sign, ' ']

/-- The marks of an ordered list. -/
def numberMark (paren : Bool) (n : Nat) : Chars :=
  Text.Numeral.ofNat n ++ [if paren then ')' else '.', ' ']

theorem isMarking_bullet {sign : Char} (h : sign ∈ ['-', '*', '+']) (count : Nat) :
    IsMarking sign count (bulletMark sign) fun _ => .bullet sign where
  find := by
    intro i _ context hcontext s follows column
    have hsigns : ∀ sign ∈ ['-', '*', '+'], isSpace sign = false ∧
        (∀ other ∈ ['#', '>', '<', '~', '\x60'], sign ≠ other) ∧
          (sign == '-' || sign == '+' || sign == '*') = true := by simp [isSpace]
    obtain ⟨space, other, hbullet⟩ := hsigns sign h
    obtain ⟨⟨c, cs, rfl, hink⟩, d, hd, hspace, hne⟩ := follows
    have hmarker : Start.marker? ([sign] ++ ' ' :: c :: cs) = some (.bullet sign, 1) :=
      if_pos hbullet
    have unbroken : Start.isThematicBreak ([sign] ++ ' ' :: c :: cs) = false := by
      have hall : ((c :: cs).filter (!isSpace ·)).all (· == sign) = false :=
        List.all_eq_false.mpr ⟨d, List.mem_filter.mpr ⟨hd, by simp [hspace]⟩, by simpa using hne⟩
      have hsign : ([sign] ++ ' ' :: c :: cs).filter (!isSpace ·) =
          sign :: (c :: cs).filter (!isSpace ·) := by
        rw [List.singleton_append, List.filter_cons_of_pos (by simp [space]),
          List.filter_cons_of_neg (by decide)]
      rw [Start.isThematicBreak, hsign]
      dsimp only
      rw [hall, Bool.and_false]
    exact find?_of_marker space other unbroken hink hmarker hcontext column
  head _ := by
    have hsigns : ∀ sign ∈ ['-', '*', '+'], Text.isBlank sign = false := by simp [Text.isBlank]
    exact ⟨sign, [' '], rfl, hsigns sign h⟩
  single _ := by
    have hsigns : ∀ sign ∈ ['-', '*', '+'], '\n' ∉ [sign, ' '] ∧ '\r' ∉ [sign, ' '] := by simp
    exact hsigns sign h
  agrees _ _ := beq_self_eq_true sign

theorem marker?_number {n : Nat} (short : (Text.Numeral.ofNat n).length ≤ 9) (paren : Bool)
    (s : Chars) :
    Start.marker? (Text.Numeral.ofNat n ++ (if paren then ')' else '.') :: s) =
      some (.ordered n paren, (Text.Numeral.ofNat n).length + 1) := by
  obtain ⟨c, cs, hcons, hdigit⟩ := Text.Numeral.exists_digit_ofNat n
  have hdigits : (Text.Numeral.ofNat n ++ (if paren then ')' else '.') :: s).takeWhile
      Char.isDigit = Text.Numeral.ofNat n := by
    rw [List.takeWhile_append_of_pos fun _ => Text.Numeral.isDigit_of_mem_ofNat,
      List.takeWhile_cons_of_neg (by cases paren <;> decide), List.append_nil]
  have hbullet : (c == '-' || c == '+' || c == '*') = false := by
    simp [Text.ne_of_isDigit hdigit]
  have hsome : (Text.Numeral.ofNat n).isEmpty = false := by
    rw [hcons]
    rfl
  have hread : Text.decimalValue (Text.Numeral.ofNat n) = n := Nat.ofDigitChars_ten_toDigits
  have hmany : decide (9 < (Text.Numeral.ofNat n).length) = false :=
    decide_eq_false (Nat.not_lt.mpr short)
  have hdrop : (c :: (cs ++ (if paren then ')' else '.') :: s)).drop (Text.Numeral.ofNat n).length =
      (if paren then ')' else '.') :: s := by
    rw [← List.cons_append, ← hcons, List.drop_left]
  rw [hcons, List.cons_append] at hdigits ⊢
  rw [Start.marker?, hbullet, hdigits, ← hcons]
  simp only [Bool.false_eq_true, if_false, hsome, hmany, Bool.or_self, hdrop, hread]
  cases paren <;> rfl

theorem isMarking_number {count : Nat} (bounded : count ≤ 1000000000) (paren : Bool) (sign : Char) :
    IsMarking sign count (numberMark paren) fun n => .ordered n paren where
  find := by
    intro n hn context hcontext s follows column
    have short : (Text.Numeral.ofNat n).length ≤ 9 :=
      (Nat.length_toDigits_le_iff (by decide) (by decide)).mpr (by omega)
    obtain ⟨d, ds, rfl, hink⟩ := follows.ink
    have hmarker := marker?_number short paren (' ' :: d :: ds)
    obtain ⟨c, cs, hcons, hdigit⟩ := Text.Numeral.exists_digit_ofNat n
    have hne : ∀ sign : Char, sign.isDigit = false → c ≠ sign := fun _ => Text.ne_of_isDigit hdigit
    have space : isSpace c = false := isSpace_of_not_isBlank (Text.isBlank_of_isDigit hdigit)
    have other : ∀ sign ∈ ['#', '>', '<', '~', '\x60'], c ≠ sign := by
      have hsigns : ∀ sign ∈ ['#', '>', '<', '~', '\x60'], sign.isDigit = false := by simp
      exact fun sign hsign => hne sign (hsigns sign hsign)
    have unbroken (s : Chars) : Start.isThematicBreak (c :: s) = false :=
      isThematicBreak_of_head space ⟨hne '*' (by decide), hne '-' (by decide), hne '_' (by decide)⟩
    have hmark : numberMark paren n = (c :: (cs ++ [if paren then ')' else '.'])) ++ [' '] := by
      simp [numberMark, hcons]
    rw [hcons, List.cons_append] at hmarker
    rw [hmark, List.append_assoc, List.singleton_append]
    refine find?_of_marker space other (unbroken _) hink ?_ hcontext column
    simpa using hmarker
  head n := by
    obtain ⟨c, cs, hcons, hdigit⟩ := Text.Numeral.exists_digit_ofNat n
    exact ⟨c, _, by rw [numberMark, hcons]; rfl, Text.isBlank_of_isDigit hdigit⟩
  single n := by
    have hdigits : ∀ c : Char, c.isDigit = false → c ∉ Text.Numeral.ofNat n := by
      intro c hc hmem
      rw [Text.Numeral.isDigit_of_mem_ofNat hmem] at hc
      cases hc
    have hn := hdigits '\n' (by decide)
    have hr := hdigits '\r' (by decide)
    cases paren <;> simp [numberMark, hn, hr]
  agrees _ _ := beq_self_eq_true paren

end Canonmark.Markdown
