import Canonmark.Proofs.Markdown.Unescaping

/-! What is written for the target of a link is read as its destination and its title. -/
namespace Canonmark.Markdown

variable {s rest : Chars} {ms : List Mark}

/-- A mark of a title: what is escaped is punctuation, and what is not ends no title. -/
structure Mark.IsQuoted (m : Mark) : Prop where
  escaped : m.escaped → isPunctuation m.sign
  plain : m.escaped = false → m.sign ≠ '\\' ∧ m.sign ≠ '"'

/-- A title is written sign by sign. -/
theorem exists_marks_title (s : Chars) :
    ∃ ms : List Mark, escapeReferences (s.flatMap escapeQuote) = ms.flatMap Mark.text ∧
    ms.map Mark.sign = s ∧ ∀ m ∈ ms, m.IsQuoted := by
  induction s with
  | nil => exact ⟨[], rfl, rfl, by simp⟩
  | cons c s ih =>
    obtain ⟨ms, hms, hsigns, hquoted⟩ := ih
    rw [List.flatMap_cons, escapeQuote]
    split
    · rename_i hquote
      have hquote : c = '\\' ∨ c = '"' := by simpa using hquote
      have hother : (c == '&') = false := by obtain rfl | rfl := hquote <;> rfl
      refine ⟨⟨c, true⟩ :: ms, ?_, by rw [List.map_cons, hsigns],
        List.forall_mem_cons.mpr ⟨⟨fun _ => ?_, nofun⟩, hquoted⟩⟩
      · rw [List.cons_append, List.singleton_append, escapeReferences,
          escapeReferences, hother, hms]
        rfl
      · obtain rfl | rfl := hquote <;> rfl
    · rename_i hplain
      have hplain : c ≠ '\\' ∧ c ≠ '"' := by simpa using hplain
      rw [List.singleton_append, escapeReferences, hms]
      split
      · rename_i hreference
        obtain rfl : c = '&' := by simp_all
        exact ⟨⟨'&', true⟩ :: ms, rfl, by rw [List.map_cons, hsigns],
          List.forall_mem_cons.mpr ⟨⟨fun _ => rfl, nofun⟩, hquoted⟩⟩
      · exact ⟨⟨c, false⟩ :: ms, rfl, by rw [List.map_cons, hsigns],
          List.forall_mem_cons.mpr ⟨⟨nofun, fun _ => hplain⟩, hquoted⟩⟩

theorem Mark.IsQuoted.isReversible {m : Mark} (h : m.IsQuoted) : m.IsReversible where
  escaped := h.escaped
  plain := fun hplain => (h.plain hplain).1

/-- A title ends at the first quotation mark that is not escaped. -/
theorem titleBody?_marks (h : ∀ m ∈ ms, m.IsQuoted) (rest : Chars) :
    Target.titleBody? '"'
      (ms.flatMap Mark.text ++ '"' :: rest) = some (ms.flatMap Mark.text, rest) := by
  induction ms with
  | nil => rfl
  | cons m ms ih =>
    obtain ⟨hm, hms⟩ := List.forall_mem_cons.mp h
    obtain ⟨c, escaped⟩ := m
    rw [List.flatMap_cons, List.append_assoc, Mark.text]
    cases escaped with
    | true =>
      rw [if_pos rfl, List.cons_append, List.singleton_append, Target.titleBody?, ih hms]
      rfl
    | false =>
      obtain ⟨hescape, hquote⟩ : c ≠ '\\' ∧ c ≠ '"' := hm.plain rfl
      rw [if_neg (by simp), List.singleton_append, Target.titleBody?, ih hms]
      · simp [hquote]
      · rintro - - rfl
        exact absurd rfl hescape

/-- A destination as it is read: no other sign than those which stand in destinations as they are,
and no reference that is to be decoded. -/
structure IsDestination (s : Chars) : Prop where
  nonempty : s ≠ []
  signs : ∀ c ∈ s, Target.isPlain c
  kept : Text.decodeReferences s = s

theorem decodeReferences_of_not_mem (h : '&' ∉ s) : Text.decodeReferences s = s :=
  Text.decodeReferences_eq_self fun before rest body hsplit => absurd (by simp [hsplit]) h

/-- Letters and digits are a destination. -/
theorem isDestination_alphanum (some : s ≠ []) (h : ∀ c ∈ s, c.isAlphanum) : IsDestination s where
  nonempty := some
  signs c hc := by simp [Target.isPlain, h c hc]
  kept := decodeReferences_of_not_mem fun hmem => absurd (h '&' hmem) (by decide)

theorem ne_of_isPlain {c : Char} (h : Target.isPlain c) (sign : Char)
    (hsign : Target.isPlain sign = false) : c ≠ sign := by
  rintro rfl
  rw [h] at hsign
  cases hsign

theorem isPlain_cases {c : Char} (h : Target.isPlain c) :
    Text.isBlank c = false ∧ Target.isControl c = false := by
  rw [Target.isPlain, Bool.or_eq_true] at h
  obtain h | h := h
  · refine ⟨isBlank_of_isAlphanum h, ?_⟩
    have hcode := toNat_of_isAlphanum h
    rw [Target.isControl, Bool.or_eq_false_iff, decide_eq_false_iff_not, beq_eq_false_iff_ne]
    exact ⟨by omega, ne_of_isAlphanum h '\x7f' rfl⟩
  · have hall : ∀ c ∈ "_.-~:/?#@!$&()*+,;=%".toList, Text.isBlank c = false ∧
        Target.isControl c = false := by
      simp [Text.isBlank, Target.isControl]
    exact hall c (List.contains_iff_mem.mp h)

theorem not_isSpace_of_isPlain {c : Char} (h : Target.isPlain c) : isLineSpace c = false :=
  isLineSpace_of_not_isBlank (isPlain_cases h).1

/-- A destination stands as it is, or with parentheses in it in angle brackets. -/
theorem destination_eq (h : IsDestination s) :
    destination s = if s.any (fun c => c == '(' || c == ')') then '<' :: s ++ ['>'] else s := by
  have hspecial : (s.any fun c => Text.isBlank c || c == '(' || c == ')' || c == '<' || c == '>') =
      s.any fun c => c == '(' || c == ')' := by
    rw [Bool.eq_iff_iff, List.any_eq_true, List.any_eq_true]
    refine exists_congr fun c => and_congr_right fun hc => ?_
    have hplain := h.signs c hc
    simp [(isPlain_cases hplain).1, ne_of_isPlain hplain '<' (by decide),
      ne_of_isPlain hplain '>' (by decide)]
  rw [destination, hspecial]
  split
  · congr 2
    refine (List.flatMap_congr fun c hc => ?_).trans (List.flatMap_singleton' s)
    have hplain := h.signs c hc
    have hangles : ¬(c == '<') ∧ ¬(c == '>') := by
      simp [ne_of_isPlain hplain '<' (by decide), ne_of_isPlain hplain '>' (by decide)]
    exact (if_neg hangles.1).trans (if_neg hangles.2)
  · rfl

theorem ofAddress_destination (h : IsDestination s) : Target.ofAddress s = s := by
  obtain ⟨-, hplain, hkept⟩ := h
  rw [Target.ofAddress, hkept, Target.percentEncode]
  clear hkept
  induction s with
  | nil => rfl
  | cons c s ih =>
    obtain ⟨hc, hs⟩ := List.forall_mem_cons.mp hplain
    rw [List.flatMap_cons, ih hs, if_pos hc, List.singleton_append]

/-- A destination without parentheses is read up to its end. -/
theorem bare?_plain (h : ∀ c ∈ s, Target.isPlain c) (single : ∀ c ∈ s, c ≠ '(' ∧ c ≠ ')') {e : Char}
    (ends : e = ' ' ∨ e = ')') : Target.bare? 0 (s ++ e :: rest) = some (s, e :: rest) := by
  induction s with
  | nil => obtain rfl | rfl := ends <;> simp [Target.bare?]
  | cons c s ih =>
    obtain ⟨hc, hs⟩ := List.forall_mem_cons.mp h
    obtain ⟨⟨hopen, hclose⟩, hsingle⟩ := List.forall_mem_cons.mp single
    have hspace := ne_of_isPlain hc ' ' (by decide)
    rw [List.cons_append, Target.bare?]
    · simp [hspace, hopen, hclose, (isPlain_cases hc).2, ih hs hsingle]
    · rintro - - rfl
      exact absurd rfl (ne_of_isPlain hc '\\' (by decide))

/-- A destination in angle brackets is read up to the closing one. -/
theorem angled?_plain (h : ∀ c ∈ s, Target.isPlain c) (rest : Chars) :
    Target.angled? (s ++ '>' :: rest) = some (s, rest) := by
  induction s with
  | nil => simp [Target.angled?]
  | cons c s ih =>
    obtain ⟨hc, hs⟩ := List.forall_mem_cons.mp h
    have hne := ne_of_isPlain hc
    rw [List.cons_append, Target.angled?]
    · simp [hne '>' (by decide), hne '<' (by decide), hne '\n' (by decide), ih hs]
    · rintro - - rfl
      exact absurd rfl (hne '\\' (by decide))

/-- What is written for a destination is read as it. -/
theorem written?_destination (h : IsDestination s) {e : Char} (ends : e = ' ' ∨ e = ')') :
    Target.written? ((destination s ++ e :: rest).dropWhile isLineSpace) = some (s, e :: rest) := by
  obtain ⟨c, cs, hcons⟩ := List.exists_cons_of_ne_nil h.nonempty
  have hc := h.signs c (by simp [hcons])
  rw [destination_eq h]
  split
  · have hsplit : '<' :: s ++ ['>'] ++ e :: rest = '<' :: (s ++ '>' :: e :: rest) := by simp
    rw [hsplit, Text.dropWhile_of_head rfl, Target.written?]
    exact angled?_plain h.signs _
  · rename_i hsingle
    have hbare : Target.bare? 0 (s ++ e :: rest) = some (s, e :: rest) :=
      bare?_plain h.signs (by simpa using hsingle) ends
    rw [hcons] at hbare ⊢
    rw [List.cons_append, Text.dropWhile_of_head (not_isSpace_of_isPlain hc), ← List.cons_append,
      ← hbare, List.cons_append, Target.written?]
    intro t heq
    obtain rfl := (List.cons.inj heq).1
    exact absurd rfl (ne_of_isPlain hc '<' (by decide))

theorem ofWritten_destination (h : IsDestination s) (title : Chars) :
    Target.ofWritten s title = ⟨s, dropEscapes title⟩ := by
  have hmem : '\\' ∉ s := fun hmem => absurd (h.signs _ hmem) (by decide)
  rw [Target.ofWritten, dropEscapes_of_not_mem hmem, ofAddress_destination h]

/-- What is written for a destination and a title is read as both. -/
theorem inParentheses?_linkTarget (h : IsDestination s) (title rest : Chars) :
    Target.inParentheses? (linkTarget s title ++ ')' :: rest) = some (⟨s, title⟩, rest) := by
  rw [linkTarget]
  split
  · rename_i hnil
    obtain rfl := List.isEmpty_iff.mp hnil
    rw [Target.inParentheses?, written?_destination h (.inr rfl)]
    exact congrArg (fun t => some (t, rest)) (ofWritten_destination h [])
  · obtain ⟨ms, hms, rfl, hquoted⟩ := exists_marks_title title
    have hbody := titleBody?_marks hquoted (')' :: rest)
    have hsplit : destination s ++ ' ' :: '"' :: ms.flatMap Mark.text ++ ['"'] ++ ')' :: rest =
        destination s ++ ' ' :: '"' :: (ms.flatMap Mark.text ++ '"' :: ')' :: rest) := by simp
    rw [hms, hsplit, Target.inParentheses?, written?_destination h (.inl rfl)]
    have htitle : Target.title? ('"' :: (ms.flatMap Mark.text ++ '"' :: ')' :: rest)) =
        some (ms.flatMap Mark.text, ')' :: rest) := hbody
    have hspaced : (' ' :: '"' :: (ms.flatMap Mark.text ++ '"' :: ')' :: rest)).dropWhile
        isLineSpace = '"' :: (ms.flatMap Mark.text ++ '"' :: ')' :: rest) :=
      rfl
    simp [hspaced, htitle, ofWritten_destination h,
      dropEscapes_marks fun m hm => (hquoted m hm).isReversible, isLineSpace, isSpace]

/-- A target holds no white space but spaces, if its title holds none. -/
theorem blanks_linkTarget {title : Chars} (h : IsDestination s)
    (blanks : ∀ c ∈ title, Text.isBlank c → c = ' ') :
    ∀ c ∈ linkTarget s title, Text.isBlank c → c = ' ' := by
  have hplain : ∀ c ∈ s, Text.isBlank c → c = ' ' := by
    intro c hc hblank
    rw [(isPlain_cases (h.signs c hc)).1] at hblank
    cases hblank
  have hdest : ∀ c ∈ destination s, Text.isBlank c → c = ' ' := by
    rw [destination_eq h]
    split
    · simp only [List.forall_mem_append, List.forall_mem_cons]
      exact ⟨⟨nofun, hplain⟩, nofun, by simp⟩
    · exact hplain
  obtain ⟨ms, hms, rfl, -⟩ := exists_marks_title title
  have htitle : ∀ c ∈ ms.flatMap Mark.text, Text.isBlank c → c = ' ' := by
    intro c hc hblank
    obtain rfl | hc := mem_flatMap_text hc
    · cases hblank
    · exact blanks c hc hblank
  rw [linkTarget, hms]
  split
  · exact hdest
  · simp only [List.forall_mem_append, List.forall_mem_cons]
    exact ⟨⟨hdest, by simp, nofun, htitle⟩, nofun, by simp⟩

end Canonmark.Markdown
