import Canonmark.Proofs.Markdown.Hanging

/-! What the first line of a list shows, and when a list that is taken to interrupt a paragraph
does. -/
namespace Canonmark.Markdown.Writer

open Text (isBlank)

variable {s t : Chars}

/-- Whether the first sign of a text is ink rather than the end of a line; other white space is
passed over. -/
def opening : Chars → Option Bool
  | [] => none
  | c :: s => if c == '\n' then some false else if isBlank c then opening s else some true

@[simp] theorem opening_nil : opening [] = none := rfl

@[simp] theorem opening_append (s t : Chars) : opening (s ++ t) = (opening s).or (opening t) := by
  induction s with
  | nil => rfl
  | cons c s ih =>
    simp only [List.cons_append, opening, ih]
    split
    · rfl
    · split <;> rfl

theorem opening_newline (s : Chars) : opening ('\n' :: s) = some false := rfl

theorem opening_ink {c : Char} (h : isBlank c = false) (s : Chars) :
    opening (c :: s) = some true := by
  have hnewline : (c == '\n') = false := by
    rw [beq_eq_false_iff_ne]
    rintro rfl
    cases h
  rw [opening, hnewline, h]
  rfl

/-- A text up to its first end of a line. -/
def firstLine (s : Chars) : Chars := s.takeWhile (· != '\n')

/-- A text that opens with ink shows it in its first line. -/
theorem opening_eq_true_iff (s : Chars) :
    opening s = some true ↔ ∃ c ∈ firstLine s, isBlank c = false := by
  induction s with
  | nil => simp [firstLine]
  | cons c s ih =>
    rw [firstLine] at ih ⊢
    by_cases hnewline : c = '\n'
    · simp [hnewline, opening_newline]
    · cases hblank : isBlank c with
      | true => simp [opening, hnewline, hblank, ih]
      | false => simp [opening, hnewline, hblank]

theorem firstLine_append (h : '\n' ∉ s) (t : Chars) : firstLine (s ++ t) = s ++ firstLine t := by
  refine List.takeWhile_append_of_pos fun c hc => ?_
  rw [bne_iff_ne]
  rintro rfl
  exact h hc

theorem firstLine_append_of_head (h : ∀ c ∈ t.head?, c = '\n') (s : Chars) :
    firstLine (s ++ t) = firstLine s := by
  induction s with
  | nil =>
    cases t with
    | nil => rfl
    | cons c t => simp [firstLine, h c rfl]
  | cons c s ih =>
    unfold firstLine at ih ⊢
    rw [List.cons_append, List.takeWhile_cons, List.takeWhile_cons, ih]

theorem opening_of_blank (h : ∀ c ∈ s, isBlank c) : opening s ≠ some true := by
  induction s with
  | nil => nofun
  | cons c s ih =>
    obtain ⟨hc, hs⟩ := List.forall_mem_cons.mp h
    rw [opening, hc]
    split
    · nofun
    · exact ih hs

theorem opening_trimEnd (h : opening s = some true) : opening (Text.trimEnd s) = some true := by
  have hparts := Text.dropEndWhile_append_takeEndWhile isBlank s
  have hblank : opening (Text.takeEndWhile isBlank s) ≠ some true := by
    refine opening_of_blank fun c hc => ?_
    rw [Text.takeEndWhile, List.mem_reverse] at hc
    exact List.all_eq_true.mp List.all_takeWhile c hc
  rw [← hparts, opening_append, Option.or_eq_some_iff] at h
  obtain h | ⟨_, h⟩ := h
  · exact h
  · exact absurd h hblank

theorem opening_unlines (line : Chars) (ls : List Chars) :
    opening (Text.unlines (line :: ls)) =
      (opening line).or (if ls.isEmpty then none else some false) := by
  cases ls with
  | nil => simp
  | cons l ls =>
    rw [Text.unlines_cons line (by simp), opening_append, opening_newline]
    rfl

theorem opening_indentLines (indent : Nat) (s : Chars) :
    opening (indentLines indent s) = opening s := by
  obtain ⟨line, ls, hlines⟩ := List.exists_cons_of_ne_nil (Text.lines_ne_nil s)
  conv => rhs; rw [← Text.unlines_lines s]
  rw [indentLines, hlines]
  simp only [opening_unlines, List.isEmpty_map]

theorem Guarded.opening_eq {t t' : Chars} (h : Guarded t t') : opening t' = opening t := by
  obtain rfl | ⟨before, n, rfl, rfl⟩ := h
  · rfl
  · cases n with
    | zero => rw [List.replicate_zero, List.append_nil]
    | succ n =>
      have hslash : opening (List.replicate (n + 1) '\\') = some true := opening_ink (by decide) _
      have hmark : opening ['!'] = some true := opening_ink (by decide) _
      rw [opening_append, opening_append, opening_append, hslash, hmark, Option.or_assoc,
        Option.some_or]

theorem isBlank_of_isPunctuation {c : Char} (h : isPunctuation c) : isBlank c = false := by
  rw [Bool.eq_false_iff]
  intro hblank
  simp only [isPunctuation, isBlank, Bool.or_eq_true, Bool.and_eq_true, decide_eq_true_eq,
    beq_iff_eq] at h hblank
  omega

theorem opening_escape (s : Chars) : opening (escape s) = opening s := by
  have hmarks : ∀ ms : List Mark, (∀ m ∈ ms, m.escaped → isBlank m.sign = false) →
      opening (ms.flatMap Mark.text) = opening (ms.map Mark.sign) := by
    intro ms hms
    induction ms with
    | nil => rfl
    | cons m ms ih =>
      obtain ⟨hm, hms⟩ := List.forall_mem_cons.mp hms
      rw [List.flatMap_cons, List.map_cons, ← List.singleton_append (l := ms.map Mark.sign),
        opening_append, opening_append, ih hms, Mark.text]
      split
      · rename_i hescaped
        rw [opening_ink (by decide), opening_ink (hm hescaped)]
      · rfl
  rw [escape_eq, hmarks, map_sign_marks]
  intro m hm hescaped
  obtain ⟨pre, post, h⟩ := List.append_of_mem hm
  exact isBlank_of_isPunctuation (isPunctuation_of_escaped h hescaped)

theorem opening_plainText (style : Style) (text : String) :
    opening (plainText style text) = opening text.toList := by
  rw [plainText]
  split
  · exact opening_escape text.toList
  · rfl

theorem opening_fence (n : Nat) (s : Chars) : opening (fence (n + 1) ++ s) = some true := by
  rw [fence, List.replicate_succ, List.cons_append, opening_ink (by decide)]

theorem opening_codeSpan (s : Chars) : opening (codeSpan s) = some true := by
  unfold codeSpan
  dsimp only
  split
  · rw [List.append_assoc, opening_fence]
  · rw [List.append_assoc, opening_fence]

theorem opening_codeBlock {style : Style} {text info mark : Chars}
    (h : fenceAround style text = .ok mark) : opening (codeBlock mark text info) = some true := by
  obtain ⟨n, rfl, -⟩ := exists_fence h
  have heither : ∀ (b : Bool) (body : Chars), opening (Text.unlines (if b then [fence (n + 1) ++
        info, fence (n + 1)] else [fence (n + 1) ++ info, body, fence (n + 1)])) = some true := by
    rintro (_ | _) body
    all_goals
      simp only [Bool.false_eq_true, if_false, if_true, opening_unlines, opening_fence]
      rfl
  exact heither _ _

theorem opening_delimited {delimiter : Chars} (h : opening delimiter = some true) (s : Chars) :
    opening (delimited delimiter s) = opening s := by
  unfold delimited
  dsimp only
  split
  · rfl
  · rename_i hsome
    obtain ⟨hparts, ⟨c, hc, hblank⟩, -⟩ :=
      Text.trim_parts (s := s) (by simpa [List.isEmpty_iff] using hsome)
    obtain ⟨rest, hrest⟩ := List.head?_eq_some_iff.mp hc
    have hs : opening s = (opening (s.takeWhile isBlank)).or (some true) := by
      conv => lhs; rw [hparts]
      rw [hrest, opening_append, opening_append, opening_ink hblank, Option.or_assoc,
        Option.some_or]
    rw [hs]
    split <;> simp [h]

theorem opening_headingText (style : Style) (level : Level) (s : Chars) :
    opening (headingText style level s) = some true := by
  have hhashes : ∀ t, opening (List.replicate level.number '#' ++ t) = some true := by
    intro t
    obtain ⟨n, hn⟩ : ∃ n, level.number = n + 1 := by cases level <;> exact ⟨_, rfl⟩
    rw [hn, List.replicate_succ, List.cons_append, opening_ink (by decide)]
  have hheading : ∀ content : Chars, opening (if content.isEmpty then List.replicate level.number
        '#' else List.replicate level.number '#' ++ ' ' :: content) = some true := by
    intro content
    split
    · rw [← List.append_nil (List.replicate _ _), hhashes]
    · exact hhashes _
  exact hheading _

theorem opening_quoteText (indent : Nat) (s : Chars) :
    opening (quoteText indent s) = some true := by
  obtain ⟨line, ls, hlines⟩ := List.exists_cons_of_ne_nil (Text.lines_ne_nil s)
  have hline : ∀ t, opening (quoteLine line ++ t) = some true := by
    intro t
    unfold quoteLine
    split <;> exact opening_ink (by decide) _
  rw [quoteText, hlines, List.map_cons, Text.intercalate_cons, hline]

theorem opening_itemText {mark : Chars} (h : opening mark = some true) (s : Chars) :
    opening (itemText mark s) = some true := by
  unfold itemText
  split
  · exact opening_trimEnd h
  · rw [opening_append, h, Option.some_or]

theorem opening_ofInt (i : Int) (s : Chars) : opening (Text.Numeral.ofInt i ++ s) = some true := by
  unfold Text.Numeral.ofInt
  split
  · exact opening_ink (by decide) _
  · obtain ⟨c, cs, hcons, hdigit⟩ := Text.Numeral.exists_digit_ofNat i.natAbs
    rw [hcons, List.cons_append, opening_ink (Text.isBlank_of_isDigit hdigit)]

theorem opening_marker {style : Style} (hbullet : isBlank style.bullet = false)
    {data : ListData} {number : Int} {mark : Chars} (h : marker style data number = .ok mark) :
    opening mark = some true := by
  obtain ⟨-, rfl⟩ | ⟨-, rfl⟩ := marker_cases h
  · exact opening_ink hbullet _
  · exact opening_ofInt _ _

theorem opening_separator (tight : Bool) (indent : Nat) :
    opening (separator tight indent) = some false := by
  cases tight <;> rfl

def leafOpening : Leaf → Option Bool
  | .text t | .htmlInline t _ => opening t.toList
  | .htmlBlock t _ => opening (Text.dropEndWhile (· == '\n') t.toList)
  | .softbreak => some false
  | .codeBlock .. | .thematicBreak | .code _ | .linebreak => some true

mutual

/-- What the text of a node opens with where blocks have been written before it. -/
def openingOf : Node → Option Bool
  | .foreign _ => none
  | .leaf x _ => leafOpening x
  | .branch c _ children =>
    match c with
    | .document _ | .clause .. =>
      if (BlockUnit.ofChildren children).isEmpty then none else some false
    | .paragraph | .emph | .strong => openingOfAll children
    | .heading _ | .blockQuote | .item | .link .. | .image .. => some true
    | .list _ => openingOfItems children
    | .templateVariable _ value | .computedVariable value =>
      if children.isEmpty then opening value.toList else openingOfAll children

def openingOfAll : List Node → Option Bool
  | [] => none
  | n :: ns => (openingOf n).or (openingOfAll ns)

def openingOfItems : List Node → Option Bool
  | [] => none
  | n :: ns => (openingOf n).or (if ns.isEmpty then none else some false)

end

def unitOpening : BlockUnit → Option Bool
  | .run content => openingOfAll content
  | .single n => openingOf n

/-- What blocks open with, the first of them being the first block of its container or not. -/
def blocksOpening (first : Bool) : List BlockUnit → Option Bool
  | [] => none
  | u :: us =>
    if first then (unitOpening u).or (if us.isEmpty then none else some false) else some false

/-- What the text of an item opens with after its marker. -/
def itemOpening (item : Node) : Option Bool := blocksOpening true (itemUnits item)

/-- What is kept by visits: texts open as their nodes do. -/
structure OpensAs (n : Node) (l : Layout) (t : Chars) : Prop where
  visit : l.first = false → opening (itemMarker l) = some true → opening t = openingOf n
  item : n.kind? = some .item → opening (itemMarker l) = some true →
    ∃ content, t = itemText (itemMarker l) content ∧ opening content = itemOpening n

section Below

variable {l : Layout}

theorem opening_of_visit {n : Node} (first : l.first = false)
    (marked : opening (itemMarker l) = some true) {t : Chars} (h : VisitOf OpensAs l n t) :
    opening t = openingOf n := by
  obtain ⟨l', hsettles, ht⟩ := h
  have hfirst : l'.first = false := by simpa [first] using hsettles.first
  refine ht.visit hfirst ?_
  rwa [itemMarker, hsettles.markers, ← itemMarker]

theorem opening_of_content {ns : List Node} (first : l.first = false)
    (marked : opening (itemMarker l) = some true) {t : Chars} (h : ContentOf OpensAs l ns t) :
    opening t = openingOfAll ns := by
  unfold ContentOf at h
  induction h with
  | nil => rw [openingOfAll, opening_nil]
  | cons visit guarded _ ih =>
    rw [opening_append, guarded.opening_eq, ih, opening_of_visit first marked visit, openingOfAll]

theorem opening_of_unit {u : BlockUnit} (marked : opening (itemMarker l) = some true) {t : Chars}
    (h : UnitOf OpensAs { l with first := false } u t) : opening t = unitOpening u := by
  cases u with
  | run content => exact opening_of_content (l := { l with first := false }) rfl marked h
  | single n => exact opening_of_visit (l := { l with first := false }) rfl marked h

theorem opening_of_pieces {us : List BlockUnit} {t : Chars}
    (h : Strung (PieceOf OpensAs l) (us.map fun v => (separator l.tight l.indent, v)) t) :
    opening t = if us.isEmpty then none else some false := by
  cases us with
  | nil =>
    cases h
    rfl
  | cons u us =>
    cases h with
    | cons piece guarded _ =>
      obtain ⟨body, rfl, _⟩ := piece
      rw [opening_append, guarded.opening_eq, opening_append, opening_separator]
      rfl

theorem opening_of_blocks {us : List BlockUnit} (marked : opening (itemMarker l) = some true)
    {t : Chars} (h : BlocksOf OpensAs l us t) : opening t = blocksOpening l.first us := by
  cases us with
  | nil =>
    obtain rfl := h
    rfl
  | cons u us =>
    cases h with
    | cons piece guarded others =>
      obtain ⟨body, rfl, hbody⟩ := piece
      rw [opening_append, guarded.opening_eq, opening_append, opening_of_unit marked hbody,
        opening_of_pieces others, blocksOpening]
      cases l.first with
      | true => rfl
      | false =>
        simp only [Bool.false_eq_true, if_false, opening_separator]
        rfl

theorem opening_of_items {style : Style} (hbullet : isBlank style.bullet = false) {data : ListData}
    {tight : Bool} {number : Int} (first : l.first = false) {ns : List Node} {t : Chars}
    (h : ItemsOf OpensAs style data tight l number true ns t) : opening t = openingOfItems ns := by
  cases ns with
  | nil =>
    obtain rfl := h
    rfl
  | cons n ns =>
    obtain ⟨mark, body, body', rest, hmark, hbody, hguarded, hrest, rfl⟩ := h
    have hopening : opening body = openingOf n :=
      opening_of_visit (l := { l with markers := (mark, tight) :: l.markers }) first
        (opening_marker hbullet hmark) hbody
    have hseparated : opening rest = if ns.isEmpty then none else some false := by
      cases ns with
      | nil =>
        obtain rfl := hrest
        rfl
      | cons m ns =>
        obtain ⟨_, _, _, _, _, _, _, _, rfl⟩ := hrest
        simp [opening_separator]
    rw [if_pos rfl, List.nil_append, opening_append, hguarded.opening_eq, hopening, hseparated,
      openingOfItems]

theorem opening_of_leafText {style : Style} {indent : Nat} {x : Leaf} {t : Chars}
    (h : leafText style indent x = .ok t) : opening t = leafOpening x := by
  cases x with
  | codeBlock text info tag =>
    obtain ⟨mark, hmark, rfl⟩ := map_eq_ok h
    rw [opening_indentLines, opening_codeBlock hmark, leafOpening]
  | htmlBlock text tag =>
    cases h
    rw [opening_indentLines, leafOpening]
  | text text =>
    cases h
    exact opening_plainText style text
  | code text =>
    cases h
    exact opening_codeSpan text.toList
  | thematicBreak | htmlInline text tag | softbreak | linebreak =>
    cases h
    rfl

/-- Texts that open as the nodes below a node do make the text of the node open as it does. -/
theorem opensAs_of_visitText {style : Style} (hbullet : isBlank style.bullet = false) (n : Node)
    (l : Layout) (t : Chars) (h : VisitText OpensAs style n l t) : OpensAs n l t := by
  cases n with
  | foreign v => exact h.elim
  | leaf x span => exact ⟨fun _ _ => opening_of_leafText h, fun hkind => by cases x <;> cases hkind⟩
  | branch c span children =>
    cases c with
    | item =>
      obtain ⟨content, hcontent, rfl⟩ := h
      refine ⟨fun _ marked => opening_itemText marked content, fun _ marked => ⟨content, rfl, ?_⟩⟩
      exact opening_of_blocks (l := insideItem l) marked hcontent
    | document xmlns | clause clauseid src clauseText =>
      refine ⟨fun first marked => ?_, by simp [Node.kind?, Container.kind]⟩
      rw [opening_of_blocks marked h, first, openingOf]
      cases BlockUnit.ofChildren children <;> rfl
    | paragraph =>
      exact ⟨fun first marked => opening_of_content first marked h,
        by simp [Node.kind?, Container.kind]⟩
    | heading level =>
      obtain ⟨content, -, rfl⟩ := h
      exact ⟨fun _ _ => opening_headingText style level content,
        by simp [Node.kind?, Container.kind]⟩
    | blockQuote =>
      obtain ⟨quoted, -, rfl⟩ := h
      exact ⟨fun _ _ => opening_quoteText l.indent quoted, by simp [Node.kind?, Container.kind]⟩
    | list data =>
      obtain ⟨start, -, hitems⟩ := h
      exact ⟨fun first _ => opening_of_items hbullet first hitems,
        by simp [Node.kind?, Container.kind]⟩
    | emph | strong =>
      obtain ⟨content, hcontent, rfl⟩ := h
      refine ⟨fun first marked => ?_, by simp [Node.kind?, Container.kind]⟩
      rw [opening_delimited (by decide), opening_of_content first marked hcontent, openingOf]
    | link dest title | image dest title =>
      obtain ⟨content, -, rfl⟩ := h
      exact ⟨fun _ _ => opening_ink (by decide) _, by simp [Node.kind?, Container.kind]⟩
    | templateVariable id value | computedVariable value =>
      refine ⟨fun first marked => ?_, by simp [Node.kind?, Container.kind]⟩
      rw [openingOf]
      cases hempty : children.isEmpty with
      | true =>
        obtain rfl : t = plainText style value := by simpa [VisitText, hempty] using h
        exact opening_plainText style value
      | false => exact opening_of_content first marked (by simpa [VisitText, hempty] using h)

end Below

/-- What the first item needs for a marker if its list is to be read where a paragraph stands before
it. -/
def interruptingSign (style : Style) (data : ListData) : Chars :=
  if data.ordered then ['1', if data.delimiter == some "paren" then ')' else '.']
    else [style.bullet]

theorem interruptingSign_cases {style : Style} (hbullet : style.bullet ∈ ['-', '*', '+'])
    (data : ListData) :
    '\n' ∉ interruptingSign style data ∧ '!' ∉ interruptingSign style data ∧
      Text.trimEnd (interruptingSign style data ++ [' ']) = interruptingSign style data := by
  have hmem : interruptingSign style data ∈ [['-'], ['*'], ['+'], ['1', '.'], ['1', ')']] := by
    unfold interruptingSign
    split
    · split <;> decide
    · simpa using hbullet
  have hall : ∀ sign ∈ [['-'], ['*'], ['+'], ['1', '.'], ['1', ')']],
      '\n' ∉ sign ∧ '!' ∉ sign ∧ Text.trimEnd (sign ++ [' ']) = sign := by
    decide
  exact hall _ hmem

/-- The numbers of a list that is taken to interrupt a paragraph begin with one. -/
theorem start_of_canInterrupt {style : Style} {data : ListData} {item : Node} {items : List Node}
    (ordered : data.ordered) (can : canInterrupt style data (item :: items)) {start : Int}
    (hstart : startNumber data = pure start) : (if style.noIndex then 1 else start) = 1 := by
  have hpure : ∀ i : Int, startNumber data = pure i → i = start := by
    intro i hi
    rw [hstart] at hi
    have hsame : (EStateM.Result.ok start {} : EStateM.Result WriteFault Layout Int) = .ok i {} :=
      congrFun hi {}
    cases hsame
    rfl
  rw [canInterrupt] at can
  split at can
  · cases can
  cases hindex : style.noIndex with
  | true => rfl
  | false =>
    rw [ordered, hindex] at can
    unfold startNumber at hpure
    rw [if_neg Bool.false_ne_true]
    cases hgiven : data.start with
    | none =>
      rw [hgiven] at hpure
      exact (hpure 1 rfl).symm
    | some s =>
      rw [hgiven] at hpure can
      by_cases hs : s = ""
      · subst hs
        exact (hpure 1 rfl).symm
      · cases hread : Text.Numeral.toInt s.toList with
        | error r => simp [hread] at can
        | ok i =>
          have hone : i = 1 := by simpa [hs, hread] using can
          exact (hpure 1 (by simp [hread, ordered, hone])).symm

theorem marker_of_canInterrupt {style : Style} {data : ListData} {item : Node}
    {items : List Node} (can : canInterrupt style data (item :: items))
    {start : Int} (hstart : startNumber data = pure start) {mark : Chars}
    (hmark : marker style data start = .ok mark) : mark = interruptingSign style data ++ [' '] := by
  cases hordered : data.ordered with
  | false =>
    rw [marker, hordered] at hmark
    obtain rfl := Except.ok.inj hmark
    rw [interruptingSign, hordered]
    rfl
  | true =>
    rw [marker, hordered, if_pos rfl, start_of_canInterrupt hordered can hstart] at hmark
    rw [interruptingSign, hordered, if_pos rfl]
    exact (Except.ok.inj hmark).symm

theorem Guarded.of_append {s' : Chars} (h : Guarded (s ++ t) s') (some : t ≠ []) :
    ∃ t', s' = s ++ t' ∧ Guarded t t' := by
  obtain rfl | ⟨before, n, hsame, rfl⟩ := h
  · exact ⟨t, rfl, .refl t⟩
  · obtain ⟨init, last, rfl⟩ := (List.eq_nil_or_concat' t).resolve_left some
    rw [← List.append_assoc] at hsame
    obtain ⟨rfl, hlast⟩ := List.append_inj' hsame rfl
    exact ⟨init ++ List.replicate n '\\' ++ ['!'], by simp, .inr ⟨init, n, by rw [hlast], rfl⟩⟩

/-- The first line of an item, with the text of the list after it or not. -/
theorem firstLine_itemText {sign content body rest : Chars}
    (hsign : '\n' ∉ sign ∧ '!' ∉ sign ∧ Text.trimEnd (sign ++ [' ']) = sign)
    (guarded : Guarded (itemText (sign ++ [' ']) content) body)
    (ends : ∀ c ∈ rest.head?, c = '\n') :
    sign <+: firstLine (body ++ rest) ∧
      ((∃ shown, firstLine (body ++ rest) = sign ++ ' ' :: shown ∧ ∃ c ∈ shown, isBlank c = false) ↔
        opening content = some true) := by
  obtain ⟨hnewline, hmark, htrim⟩ := hsign
  rw [firstLine_append_of_head ends]
  unfold itemText at guarded
  split at guarded
  · rename_i hempty
    rw [List.isEmpty_iff] at hempty
    rw [htrim] at guarded
    obtain rfl := guarded.eq_of_not_mem hmark
    have hline : firstLine body = body := by
      simpa [firstLine] using firstLine_append hnewline []
    rw [hline, hempty]
    refine ⟨List.prefix_refl _, ?_⟩
    constructor
    · rintro ⟨shown, hshown, -⟩
      have hlength := congrArg List.length hshown
      simp at hlength
    · simp
  · rename_i hsome
    obtain ⟨content', rfl, hcontent⟩ := guarded.of_append (by simpa [List.isEmpty_iff] using hsome)
    have hline : firstLine (sign ++ [' '] ++ content') = sign ++ [' '] ++ firstLine content' :=
      firstLine_append (by simpa using hnewline) content'
    rw [hline, ← hcontent.opening_eq, opening_eq_true_iff, List.append_assoc]
    refine ⟨List.prefix_append _ _, ?_⟩
    constructor
    · rintro ⟨shown, hshown, hink⟩
      obtain rfl : firstLine content' = shown := List.cons.inj (List.append_cancel_left hshown) |>.2
      exact hink
    · exact fun hink => ⟨firstLine content', rfl, hink⟩

theorem firstLine_of_visit {style : Style} (hbullet : style.bullet ∈ ['-', '*', '+'])
    (data : ListData) (span : Option Span) (item : Node) (items : List Node)
    (isItem : item.kind? = some .item) (can : canInterrupt style data (item :: items))
    (l l' : Layout) (visit : node style (.branch (.list data) span (item :: items)) l = .ok () l') :
    interruptingSign style data <+: firstLine (appended l l') ∧
      ((∃ shown, firstLine (appended l l') = interruptingSign style data ++ ' ' :: shown ∧
          ∃ c ∈ shown, isBlank c = false) ↔ itemOpening item = some true) := by
  have hink : isBlank style.bullet = false := by
    have hall : ∀ c ∈ ['-', '*', '+'], isBlank c = false := by simp [isBlank]
    exact hall _ hbullet
  obtain ⟨chunks, happends, start, hstart, mark, body, body', rest, hmark, ⟨l₁, hl₁, hbody⟩,
        hguarded, hrest, htext⟩ :=
    writesAt_visitText (opensAs_of_visitText hink) _ l l' visit
  obtain rfl := marker_of_canInterrupt can hstart hmark
  have hmarker : itemMarker l₁ = interruptingSign style data ++ [' '] := by
    rw [itemMarker, hl₁.markers]
    rfl
  obtain ⟨content, rfl, hopening⟩ := hbody.item isItem (hmarker ▸ opening_marker hink hmark)
  have hends : ∀ c ∈ rest.head?, c = '\n' := by
    cases items with
    | nil =>
      obtain rfl := hrest
      simp
    | cons next items =>
      obtain ⟨_, _, _, _, _, _, _, _, rfl⟩ := hrest
      cases isWrittenTight style data (item :: next :: items) <;> simp [separator]
  rw [hmarker] at hguarded
  rw [happends.appended_eq, htext, if_pos rfl, List.nil_append, ← hopening]
  exact firstLine_itemText (interruptingSign_cases hbullet data) hguarded hends

/-- A list that is taken to interrupt a paragraph begins with the sign for it; and ink follows on
its first line exactly if the first item opens with ink. -/
theorem firstLine_of_canInterrupt {options : Option Options} {overrides : Members}
    {style : Style} (comes : ComesTo options overrides style) (data : ListData)
    (span : Option Span) (item : Node) (items : List Node) (isItem : item.kind? = some .item)
    (can : canInterrupt style data (item :: items)) (l l' : Layout)
    (visit : node style (.branch (.list data) span (item :: items)) l = .ok () l') :
    interruptingSign style data <+: firstLine (appended l l') ∧
      ((∃ shown, firstLine (appended l l') = interruptingSign style data ++ ' ' :: shown ∧
          ∃ c ∈ shown, isBlank c = false) ↔ itemOpening item = some true) := by
  obtain ⟨o, hsound, rfl⟩ := comes.exists_sound
  exact firstLine_of_visit hsound.style_bullet data span item items isItem can l l' visit

/-- A tight list of one item, which holds a paragraph. -/
def bulletOf (text : String) : Node :=
  .branch (.list { listType := "bullet", tight := some "true" }) none
    [.branch .item none [.branch .paragraph none [.leaf (.text text) none]]]

/-- A document of a tight list, of which the item holds a text and another list. -/
def nestedBullets (text : String) : Node :=
  .branch (.document defaultNamespace) none
    [.branch (.list { listType := "bullet", tight := some "true" }) none
      [.branch .item none [.branch .paragraph none [.leaf (.text "a") none], bulletOf text]]]

theorem node_bulletOf :
    node {} (bulletOf "b") {} = .ok () { out := ["- b".toList] } ∧
      node {} (bulletOf "") {} = .ok () { out := [['-']] } := by
  constructor
  all_goals
    simp only [bulletOf, node, items, blocks, block, isInline, isTransparent, List.any_cons,
      List.any_nil, Bool.not_true, Bool.or_false, Bool.false_eq_true, if_false, inlines, each]
    rfl

theorem firstLine_of_shownText :
    canInterrupt {} { listType := "bullet", tight := some "true" }
      [.branch .item none [.branch .paragraph none [.leaf (.text "b") none]]] ∧
    ∃ l', node {} (bulletOf "b") {} = .ok () l' ∧
    ∃ shown, firstLine (appended {} l') = '-' :: ' ' :: shown ∧
      ∃ c ∈ shown, isBlank c = false := by
  have hline :=
    firstLine_of_canInterrupt comesTo_default _ none _ [] rfl (by decide) {} _ node_bulletOf.1
  exact ⟨by decide, _, node_bulletOf.1, hline.2.mpr (by decide)⟩

/-- A list is taken to interrupt a paragraph though nothing follows its first marker; under the
paragraph that sign makes a heading of it. -/
theorem canInterrupt_of_emptyText :
    canInterrupt {} { listType := "bullet", tight := some "true" }
      [.branch .item none [.branch .paragraph none [.leaf (.text "") none]]] ∧
    node {} (bulletOf "") {} = .ok () { out := [['-']] } ∧
    toMarkdown (.tree (nestedBullets "")) none [] = .ok "- a\n  -" := by
  refine ⟨by decide, node_bulletOf.2, toMarkdown_of_write comesTo_default ?_⟩
  have hmerged : merged (nestedBullets "") = nestedBullets "" := rfl
  rw [write, document.eq_def, hmerged, nestedBullets]
  simp only [bulletOf, node, items, blocks, block, isInline, isTransparent, List.any_cons,
    List.any_nil, Bool.not_true, Bool.or_false, Bool.false_eq_true, if_false, inlines, each]
  rfl

end Canonmark.Markdown.Writer
