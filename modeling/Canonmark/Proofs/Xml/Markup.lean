import Canonmark.Proofs.Xml.Spelling

/-! How references, values, attributes and tags are read, whatever follows them. -/
namespace Canonmark.Xml

variable {c : Char} {s body : Chars} (lenient : Bool)

theorem isAdmitted_of_isPrintable (h : IsPrintable c) : isAdmitted c := by
  have hne : ∀ d : Char, 0x7E < d.toNat → c ≠ d := by
    rintro d hd rfl
    exact absurd h.2 (Nat.not_le.mpr hd)
  simp [isAdmitted, h.1, hne '\uFFFE' (by decide), hne '\uFFFF' (by decide)]

theorem numbered?_of_toNat {digits : Chars} (given : digits ≠ []) (admitted : isAdmitted c)
    (rest : Chars) : numbered? digits c.toNat (';' :: rest) = some ([c], rest) := by
  have hvalid : c.toNat < 0xD800 ∨ 0xDFFF < c.toNat ∧ c.toNat < 0x110000 := c.valid
  have hempty : digits.isEmpty = false := by simpa using given
  have hlarge : decide (0x10FFFF < c.toNat) = false := by
    rw [decide_eq_false_iff_not]
    omega
  have hsurrogate : (decide (0xD800 ≤ c.toNat) && decide (c.toNat ≤ 0xDFFF)) = false := by
    rw [Bool.and_eq_false_iff, decide_eq_false_iff_not, decide_eq_false_iff_not]
    omega
  simp [numbered?, hempty, hlarge, hsurrogate, admitted]

/-- A run that something else ends is taken as a whole. -/
theorem takeWhile_run {p : Char → Bool} (run : ∀ d ∈ s, p d) {e : Char} (stop : p e = false)
    (rest : Chars) : (s ++ e :: rest).takeWhile p = s := by
  rw [List.takeWhile_append_of_pos run, List.takeWhile_cons_of_neg (by simp [stop]),
    List.append_nil]

/-- A reference is read as the character that it stands for. -/
theorem reference?_of_isReference (h : IsReference c body) (admitted : isAdmitted c)
    (rest : Chars) : reference? lenient (body ++ rest) = some ([c], rest) := by
  cases h with
  | @named name known =>
    simp only [characterNames, List.mem_cons, Prod.mk.injEq, List.not_mem_nil, or_false] at known
    obtain ⟨rfl, rfl⟩ | ⟨rfl, rfl⟩ | ⟨rfl, rfl⟩ | ⟨rfl, rfl⟩ | ⟨rfl, rfl⟩ := known <;> rfl
  | @decimal digits given decimal value =>
    obtain ⟨d, ds, rfl⟩ := List.exists_cons_of_ne_nil given
    have hd : d ≠ 'x' := by
      rintro rfl
      exact absurd (decimal 'x' (by simp)) (by decide)
    have hrun := takeWhile_run decimal (show Char.isDigit ';' = false from rfl) rest
    rw [List.cons_append, List.append_assoc, List.singleton_append, reference?]
    · rw [hrun, List.drop_left, value]
      exact numbered?_of_toNat given admitted rest
    · rintro t heq
      exact hd (List.cons.inj heq).1
  | @hexadecimal digits given hexadecimal value =>
    have hrun := takeWhile_run hexadecimal (show Text.isHexDigit ';' = false from rfl) rest
    rw [List.cons_append, List.cons_append, List.append_assoc, List.singleton_append, reference?,
      hrun, List.drop_left, value]
    exact numbered?_of_toNat given admitted rest

theorem isWhite_of_isPrintable (h : IsPrintable c) : (if isWhite c then ' ' else c) = c := by
  split
  · rename_i hwhite
    simp only [isWhite, Bool.or_eq_true, beq_iff_eq] at hwhite
    obtain ((rfl | rfl) | rfl) | rfl := hwhite
    · rfl
    all_goals exact absurd h.1 (by decide)
  · rfl

theorem valueFrom_skip (quote : Char) (s rest : Chars) :
    valueFrom lenient quote s.length (s ++ rest) = valueFrom lenient quote 0 rest := by
  induction s with
  | nil => rfl
  | cons c s ih => rw [List.length_cons, List.cons_append, valueFrom, ih]

/-- A value is read up to its quote. -/
theorem valueFrom_of_spells {quote : Char} (quoted : quote = '"' ∨ quote = '\'') {value : Chars}
    (h : SpellsText (some quote) value body) (printable : ∀ c ∈ value, IsPrintable c)
    (rest : Chars) : valueFrom lenient quote 0 (body ++ quote :: rest) = some (value, rest) := by
  induction h with
  | nil => simp [valueFrom]
  | @cons c cs own others first _ ih =>
    obtain ⟨hc, hcs⟩ := List.forall_mem_cons.mp printable
    have hothers := ih hcs
    cases first with
    | bare bare =>
      have hquote : (c == quote) = false :=
        beq_eq_false_iff_ne.mpr fun heq => bare.2.2.2 (by rw [heq])
      have hopen : (c == '<') = false := beq_eq_false_iff_ne.mpr bare.2.1
      have hreference : (c == '&') = false := beq_eq_false_iff_ne.mpr bare.1
      simp [valueFrom, hquote, hopen, hreference, hothers, isWhite_of_isPrintable hc]
    | @reference body reference =>
      have hquote : ('&' == quote) = false := by obtain rfl | rfl := quoted <;> decide
      have hread := reference?_of_isReference lenient reference (isAdmitted_of_isPrintable hc)
        (others ++ quote :: rest)
      have hlength : (body ++ (others ++ quote :: rest)).length - (others ++ quote :: rest).length =
          body.length := by
        rw [List.length_append, Nat.add_sub_cancel]
      rw [List.cons_append, List.cons_append, List.append_assoc, valueFrom, hquote,
        if_neg (by decide), if_neg (by decide), if_pos (by decide), hread, Option.bind_some]
      dsimp only
      rw [hlength, valueFrom_skip, hothers]
      rfl

/-- Letters and underscores. -/
def IsWord (s : Chars) : Prop := s ≠ [] ∧ ∀ c ∈ s, isNameStart c

instance : DecidablePred IsWord :=
  fun s => decidable_of_iff (s ≠ [] ∧ s.all isNameStart) (by rw [List.all_eq_true]; rfl)

/-- What ends a name that has no colon. -/
def EndsName (rest : Chars) : Prop := ∀ c ∈ rest.head?, isNameSign c = false ∧ c ≠ ':'

theorem read?_of_isWord {name : Chars} (word : IsWord name) {rest : Chars} (stop : EndsName rest) :
    Name.read? (name ++ rest) = some (⟨[], name⟩, rest) := by
  obtain ⟨given, signs⟩ := word
  obtain ⟨c, cs, rfl⟩ := List.exists_cons_of_ne_nil given
  have hsigns : ∀ d ∈ cs, isNameSign d := by
    intro d hd
    rw [isNameSign, signs d (by simp [hd]), Bool.true_or]
  have hrun : (cs ++ rest).takeWhile isNameSign = cs := by
    cases rest with
    | nil => rw [List.append_nil, List.takeWhile_eq_self_iff.mpr hsigns]
    | cons d rest => exact takeWhile_run hsigns (stop d rfl).1 rest
  have hplain : plainName? (c :: (cs ++ rest)) = some (c :: cs, rest) := by
    simp [plainName?, signs c (by simp), hrun]
  rw [Name.read?, List.cons_append, hplain]
  cases rest with
  | nil => rfl
  | cons d rest =>
    have hd : d ≠ ':' := (stop d rfl).2
    rw [Option.bind_some]
    dsimp only
    split
    · rename_i heq
      exact absurd (List.cons.inj heq).1 hd
    · rfl

theorem isWhite_of_isGap {gap : Chars} (h : IsGap gap) : ∀ c ∈ gap, isWhite c := by
  intro c hc
  obtain rfl | rfl := h c hc <;> rfl

theorem skipWhite_gap {gap : Chars} (h : IsGap gap) {c : Char} (ink : isWhite c = false)
    (rest : Chars) : skipWhite (gap ++ c :: rest) = c :: rest := by
  rw [skipWhite, List.dropWhile_append_of_pos (isWhite_of_isGap h),
    List.dropWhile_cons_of_neg (by simp [ink])]

theorem isWhite_of_isNameStart (h : isNameStart c) : isWhite c = false := by
  by_contra hwhite
  rw [Bool.not_eq_false] at hwhite
  simp only [isWhite, Bool.or_eq_true, beq_iff_eq] at hwhite
  obtain ((rfl | rfl) | rfl) | rfl := hwhite <;> exact absurd h (by decide)

theorem endsName_gap {gap : Chars} (h : IsGap gap) {c : Char}
    (stop : isNameSign c = false ∧ c ≠ ':') (rest : Chars) : EndsName (gap ++ c :: rest) := by
  intro d hd
  cases gap with
  | nil =>
    obtain rfl : c = d := by simpa using hd
    exact stop
  | cons e gap =>
    obtain rfl : e = d := by simpa using hd
    obtain rfl | rfl := h e (by simp) <;> decide

/-- An attribute as it is read. -/
def rawAttribute (a : String × String) : RawAttribute := ⟨⟨[], a.1.toList⟩, a.2.toList⟩

/-- Attributes with plain names and printable values. -/
def ArePlain (as : List (String × String)) : Prop :=
  ∀ a ∈ as, IsWord a.1.toList ∧ ∀ c ∈ a.2.toList, IsPrintable c

/-- How a start tag ends, and whether it is its own end. -/
inductive EndsTag : Bool → Chars → Prop
  | opened : EndsTag false ['>']
  | empty : EndsTag true ['/', '>']

theorem attribute?_of_spells {name value : String} {quote : Char} (word : IsWord name.toList)
    (quoted : quote = '"' ∨ quote = '\'') (spelled : SpellsText (some quote) value.toList body)
    (printable : ∀ c ∈ value.toList, IsPrintable c) (rest : Chars) :
    attribute? lenient (name.toList ++ '=' :: quote :: (body ++ quote :: rest)) =
      some (rawAttribute (name, value), rest) := by
  have hends : EndsName ('=' :: quote :: (body ++ quote :: rest)) := by
    rintro c ⟨⟩
    decide
  have hname := read?_of_isWord word hends
  have hvalue := valueFrom_of_spells lenient quoted spelled printable rest
  have hquote : skipWhite (quote :: (body ++ quote :: rest)) =
      quote :: (body ++ quote :: rest) := by
    obtain rfl | rfl := quoted <;> rfl
  have hequals : skipWhite ('=' :: quote :: (body ++ quote :: rest)) =
      '=' :: quote :: (body ++ quote :: rest) := rfl
  have hquoted : quotedValue? lenient (quote :: (body ++ quote :: rest)) =
      some (value.toList, rest) := by
    obtain rfl | rfl := quoted <;> exact hvalue
  simp only [attribute?, hname, Option.bind_some, hequals, hquote, hquoted,
    Option.map_some, rawAttribute]

/-- Where space stands before a name, the attribute of the name is read next. -/
theorem attributes?_name {gap : Chars} (space : IsGap gap) (apart : gap ≠ [])
    (start : isNameStart c) (fuel : Nat) (rest : Chars) :
    attributes? lenient (fuel + 1)
      (gap ++ c :: rest) =
        (attribute? lenient (c :: rest)).bind fun (a, rest) =>
          (attributes? lenient fuel rest).map fun (as, empty, rest) => (a :: as, empty, rest) := by
  have hspaced := skipWhite_gap space (isWhite_of_isNameStart start) rest
  have hlength : ((c :: rest).length == (gap ++ c :: rest).length) = false := by
    have hgap := List.length_pos_iff.mpr apart
    rw [beq_eq_false_iff_ne, List.length_append]
    omega
  rw [attributes?, hspaced]
  dsimp only
  split
  · rename_i heq
    rw [(List.cons.inj heq).1] at start
    exact absurd start (by decide)
  · rename_i heq
    rw [(List.cons.inj heq).1] at start
    exact absurd start (by decide)
  · rw [hlength]
    rfl

/-- The attributes of a tag are read up to its end. -/
theorem attributes?_of_spells {as : List (String × String)} {text : Chars}
    (h : AreAttributes as text) (plain : ArePlain as) {gap : Chars} (space : IsGap gap)
    {empty : Bool} {stop : Chars} (ends : EndsTag empty stop) (rest : Chars) {fuel : Nat}
    (enough : as.length < fuel) :
    attributes? lenient fuel (text ++ (gap ++ (stop ++ rest))) =
      some (as.map rawAttribute, empty, rest) := by
  induction h generalizing fuel with
  | nil =>
    obtain ⟨fuel, rfl⟩ := Nat.exists_eq_succ_of_ne_zero (Nat.ne_zero_of_lt enough)
    cases ends with
    | opened =>
      have hspaced : skipWhite (gap ++ '>' :: rest) = '>' :: rest := skipWhite_gap space rfl rest
      simp [attributes?, hspaced]
    | empty =>
      have hspaced : skipWhite (gap ++ '/' :: '>' :: rest) = '/' :: '>' :: rest :=
        skipWhite_gap space rfl _
      simp [attributes?, hspaced]
  | @cons name value others before body following quote spaced apart quoted spelled _ ih =>
    obtain ⟨fuel, rfl⟩ := Nat.exists_eq_succ_of_ne_zero (Nat.ne_zero_of_lt enough)
    obtain ⟨⟨word, printable⟩, hothers⟩ := List.forall_mem_cons.mp plain
    have hattribute := attribute?_of_spells lenient word quoted spelled printable
      (following ++ (gap ++ (stop ++ rest)))
    obtain ⟨given, signs⟩ := word
    obtain ⟨c, cs, hname⟩ := List.exists_cons_of_ne_nil given
    have hc : isNameStart c := signs c (by simp [hname])
    rw [hname, List.cons_append] at hattribute
    simp only [List.append_assoc, List.cons_append, hname]
    rw [attributes?_name lenient spaced apart hc, hattribute, Option.bind_some]
    dsimp only
    rw [ih hothers (Nat.lt_of_succ_lt_succ enough)]
    rfl

theorem length_le_of_areAttributes {as : List (String × String)} {text : Chars}
    (h : AreAttributes as text) : as.length ≤ text.length := by
  induction h with
  | nil => exact Nat.le_refl 0
  | cons _ _ _ _ _ ih =>
    simp only [List.length_append, List.length_cons]
    omega

theorem isWord_elementName (kind : Kind) : IsWord kind.elementName.toList := by
  cases kind <;> decide

/-- A name at the beginning of a tag is followed by space or by the end of the tag. -/
theorem endsName_tag {as : List (String × String)} {text gap : Chars} (h : AreAttributes as text)
    (space : IsGap gap) {empty : Bool} {stop : Chars} (ends : EndsTag empty stop) (rest : Chars) :
    EndsName (text ++ (gap ++ (stop ++ rest))) := by
  cases h with
  | nil =>
    cases ends with
    | opened => exact endsName_gap space (by decide) rest
    | empty => exact endsName_gap space (by decide) _
  | cons spaced apart quoted spelled following =>
    obtain ⟨d, ds, rfl⟩ := List.exists_cons_of_ne_nil apart
    rintro c ⟨⟩
    obtain rfl | rfl := spaced d (by simp) <;> decide

/-- A start tag is read with its attributes in the order in which they are written. -/
theorem tag?_of_areAttributes (kind : Kind) {as : List (String × String)} {text : Chars}
    (h : AreAttributes as text) (plain : ArePlain as) {gap : Chars} (space : IsGap gap)
    {empty : Bool} {stop : Chars} (ends : EndsTag empty stop) (rest : Chars) :
    tag? lenient (kind.elementName.toList ++ (text ++ (gap ++ (stop ++ rest)))) =
      some (⟨⟨[], kind.elementName.toList⟩, as.map rawAttribute, empty⟩, rest) := by
  have hname := read?_of_isWord (isWord_elementName kind) (endsName_tag h space ends rest)
  have henough : as.length < (text ++ (gap ++ (stop ++ rest))).length + 1 := by
    have hlength := length_le_of_areAttributes h
    rw [List.length_append]
    omega
  rw [tag?, hname, Option.bind_some]
  dsimp only
  rw [attributes?_of_spells lenient h plain space ends rest henough]
  rfl

theorem endTag?_elementName (kind : Kind) {gap : Chars} (space : IsGap gap) (rest : Chars) :
    endTag? (kind.elementName.toList ++ (gap ++ '>' :: rest)) =
      some (⟨[], kind.elementName.toList⟩, rest) := by
  have hends : EndsName (gap ++ '>' :: rest) := endsName_gap space (by decide) rest
  rw [endTag?, read?_of_isWord (isWord_elementName kind) hends, Option.bind_some]
  dsimp only
  rw [skipWhite_gap space rfl rest]
  rfl

end Canonmark.Xml
