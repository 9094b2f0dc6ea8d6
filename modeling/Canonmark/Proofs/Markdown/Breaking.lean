import Canonmark.Proofs.Markdown.PlainLines

/-! Lines that begin a block even where a paragraph could go on. -/
namespace Canonmark.Markdown

variable {context : Context} {nests : Bool} {l : Line} {s : Start} {text : Chars}

/-- Whether what a line begins where nothing is open is begun in a context too. -/
def Start.Breaks (context : Context) : Start → Prop
  | .html _ | .indentedCode => False
  | .item i => context = .paragraph → interrupts i
  | _ => True

theorem blockKind?_eq_none (h : RawHtml.blockKind? false text = none) (interrupts : Bool) :
    RawHtml.blockKind? interrupts text = none := by
  unfold RawHtml.blockKind? at h ⊢
  split at h
  · split_ifs at h with hverbatim hcomment hinstruction hdata hdeclaration htag
    simp only [if_neg hverbatim, if_neg hcomment, if_neg hinstruction, if_neg hdata,
      if_neg hdeclaration]
    refine if_neg fun hany => htag ?_
    rw [Bool.or_eq_true, Bool.and_eq_true] at hany ⊢
    exact hany.imp_right fun hlone => ⟨rfl, hlone.2⟩
  · rfl

/-- What a line begins, in the order in which it is looked for. -/
theorem find?_eq_or (flush : l.isIndented = false) (context : Context) (nests : Bool) :
    Start.find? context nests l =
      ((if nests then Start.quoteRest? l else none).map .quote).or
        (((Start.heading? l.content).map fun h => .heading h.1 h.2).or
          (((Start.fence? l.indent l.content).map .fence).or
            (((RawHtml.blockKind? (context != .free) l.content).map .html).or
              ((if Start.isThematicBreak l.content then some .thematicBreak else none).or
                ((if nests then Start.item? l else none).bind fun i =>
                  if context != .paragraph || Start.interrupts i then some (.item i)
                    else none))))) := by
  rw [Start.find?, flush, if_neg Bool.false_ne_true]
  cases if nests then Start.quoteRest? l else none with
  | some rest => rfl
  | none =>
    cases Start.heading? l.content with
    | some h => rfl
    | none =>
      cases Start.fence? l.indent l.content with
      | some f => rfl
      | none =>
        cases RawHtml.blockKind? (context != .free) l.content with
        | some kind => rfl
        | none =>
          dsimp only
          cases Start.isThematicBreak l.content with
          | true => rfl
          | false => cases if nests then Start.item? l else none <;> rfl

/-- What a line begins where nothing is open, it begins in every context into which it breaks. -/
theorem find?_of_free (h : Start.find? .free nests l = some s) (breaks : s.Breaks context) :
    Start.find? context nests l = some s := by
  cases hflush : l.isIndented with
  | true =>
    rw [Start.find?, hflush, if_pos rfl] at h
    obtain ⟨-, hs⟩ := Option.ite_none_right_eq_some.mp h
    cases hs
    exact breaks.elim
  | false =>
    have hkind : ∀ interrupts, (RawHtml.blockKind? false l.content).map Start.html = none →
        (RawHtml.blockKind? interrupts l.content).map Start.html = none := by
      intro interrupts hnone
      rw [Option.map_eq_none_iff] at hnone ⊢
      exact blockKind?_eq_none hnone interrupts
    rw [find?_eq_or hflush] at h ⊢
    simp only [Option.or_eq_some_iff] at h ⊢
    obtain h | ⟨hquote, h | ⟨hheading, h | ⟨hfence, h | ⟨hhtml, h | ⟨hbreak, h⟩⟩⟩⟩⟩ := h
    · exact .inl h
    · exact .inr ⟨hquote, .inl h⟩
    · exact .inr ⟨hquote, .inr ⟨hheading, .inl h⟩⟩
    · obtain ⟨kind, -, rfl⟩ := Option.map_eq_some_iff.mp h
      exact breaks.elim
    · exact .inr ⟨hquote, .inr ⟨hheading, .inr ⟨hfence, .inr ⟨hkind _ hhtml, .inl h⟩⟩⟩⟩
    · refine .inr ⟨hquote, .inr ⟨hheading, .inr ⟨hfence, .inr ⟨hkind _ hhtml, .inr ⟨hbreak, ?_⟩⟩⟩⟩⟩
      obtain ⟨i, hi, h⟩ := Option.bind_eq_some_iff.mp h
      obtain ⟨-, hs⟩ := Option.ite_none_right_eq_some.mp h
      cases hs
      refine Option.bind_eq_some_iff.mpr ⟨i, hi, if_pos ?_⟩
      cases context with
      | free | lazy => rfl
      | paragraph => exact breaks rfl

theorem marker?_head {m : Marker} {n : Nat} (h : Start.marker? text = some (m, n)) :
    ∀ cs, text ≠ '<' :: cs := by
  rintro cs rfl
  simp [Start.marker?] at h

/-- An item that is begun in another block is begun where nothing is open too. -/
theorem find?_item_of_lazy {i : ItemStart} (h : Start.find? .lazy nests l = some (.item i)) :
    Start.find? .free nests l = some (.item i) := by
  cases hflush : l.isIndented with
  | true => simp [Start.find?, hflush] at h
  | false =>
    rw [find?_eq_or hflush] at h ⊢
    have hnot : ∀ {α : Type} (o : Option α) (f : α → Start), (∀ a, f a ≠ .item i) →
        o.map f ≠ some (.item i) := by
      intro α o f hf hmap
      obtain ⟨a, -, ha⟩ := Option.map_eq_some_iff.mp hmap
      exact hf a ha
    simp only [Option.or_eq_some_iff] at h ⊢
    obtain h | ⟨hquote, h | ⟨hheading, h | ⟨hfence, h | ⟨hhtml, h | ⟨hbreak, h⟩⟩⟩⟩⟩ := h
    · exact absurd h (hnot _ _ (by simp))
    · exact absurd h (hnot _ _ (by simp))
    · exact absurd h (hnot _ _ (by simp))
    · exact absurd h (hnot _ _ (by simp))
    · cases (Option.ite_none_right_eq_some.mp h).2
    · refine .inr ⟨hquote, .inr ⟨hheading, .inr ⟨hfence, .inr ⟨?_, .inr ⟨hbreak, h⟩⟩⟩⟩⟩
      obtain ⟨j, hj, -⟩ := Option.bind_eq_some_iff.mp h
      have hitem : Start.item? l = some j := (Option.ite_none_right_eq_some.mp hj).2
      obtain ⟨⟨m, n⟩, hmarker, -⟩ := Option.bind_eq_some_iff.mp hitem
      rw [Option.map_eq_none_iff]
      unfold RawHtml.blockKind?
      split
      · rename_i hhead
        exact absurd hhead (marker?_head hmarker _)
      · rfl

/-- A line that makes a heading of the paragraph before it is made of one sign, but for white
space. -/
theorem underline?_content {level : Level} (h : Start.underline? l = some level) :
    l.isIndented = false ∧ ∃ sign ∈ ['=', '-'], ∃ n space,
      l.content = sign :: (List.replicate n sign ++ space) ∧ space.all isSpace := by
  have hparts := Text.dropEndWhile_append_takeEndWhile isSpace l.content
  have hspace : (Text.takeEndWhile isSpace l.content).all isSpace := by
    rw [Text.takeEndWhile, List.all_reverse]
    exact List.all_takeWhile
  unfold Start.underline? at h
  dsimp only at h
  obtain ⟨hflush, h⟩ := Option.ite_none_left_eq_some.mp h
  obtain ⟨hindent, hsome⟩ : l.isIndented = false ∧ Text.dropEndWhile isSpace l.content ≠ [] := by
    simpa [List.isEmpty_iff] using hflush
  refine ⟨hindent, ?_⟩
  have hsigns : ∀ sign : Char, (Text.dropEndWhile isSpace l.content).all (· == sign) →
      ∃ n space, l.content = sign :: (List.replicate n sign ++ space) ∧ space.all isSpace := by
    intro sign hall
    have hreplicate : Text.dropEndWhile isSpace l.content =
        List.replicate (Text.dropEndWhile isSpace l.content).length sign :=
      List.eq_replicate_of_mem (by simpa using hall)
    obtain ⟨n, hn⟩ := Nat.exists_eq_add_one_of_ne_zero (mt List.length_eq_zero_iff.mp hsome)
    rw [hn] at hreplicate
    exact ⟨n, _, by rw [← List.cons_append, ← List.replicate_succ, ← hreplicate, hparts], hspace⟩
  split_ifs at h with hequal hdash
  · exact ⟨'=', by simp, hsigns '=' hequal⟩
  · exact ⟨'-', by simp, hsigns '-' hdash⟩

/-- Repeated signs make no item that interrupts a paragraph. -/
theorem interrupts_of_repeated {sign : Char} (hsign : sign ∈ ['=', '-']) {n : Nat} {space : Chars}
    (hcontent : l.content = sign :: (List.replicate n sign ++ space)) (hspace : space.all isSpace)
    {i : ItemStart} (h : Start.item? l = some i) : Start.interrupts i = false := by
  obtain ⟨⟨m, length⟩, hmarker, h⟩ := Option.bind_eq_some_iff.mp h
  rw [Line.atContent, hcontent] at hmarker h
  obtain rfl | rfl : sign = '=' ∨ sign = '-' := by simpa using hsign
  · simp [Start.marker?] at hmarker
  · obtain ⟨-, rfl⟩ : Marker.bullet '-' = m ∧ 1 = length := by simpa [Start.marker?] using hmarker
    cases n with
    | zero =>
      have hblank : ((Line.mk (l.column + l.indent) ('-' :: (List.replicate 0 '-' ++ space))).after
            1).isBlank := by
        simpa [Line.after, Line.isBlank] using hspace
      dsimp only at h
      rw [hblank, if_pos rfl] at h
      obtain rfl := Option.some.inj h
      rfl
    | succ n =>
      have hafter :
          (Line.mk (l.column + l.indent) ('-' :: (List.replicate (n + 1) '-' ++ space))).after 1 =
          ⟨l.column + l.indent + 1, '-' :: (List.replicate n '-' ++ space)⟩ := by
        rw [Line.after, List.drop_one, List.tail_cons, List.replicate_succ, List.cons_append]
      dsimp only at h
      rw [hafter, isBlank_of_head (by decide), indent_of_head (by decide)] at h
      cases h

/-- A line that makes a heading of a paragraph begins no block in it but a thematic break. -/
theorem underline?_of_find? (h : Start.find? .paragraph nests l = some s)
    (other : s ≠ .thematicBreak) : Start.underline? l = none := by
  rw [Option.eq_none_iff_forall_ne_some]
  intro level hlevel
  obtain ⟨hflush, sign, hsign, n, space, hcontent, hspace⟩ := underline?_content hlevel
  have hsigns : ∀ sign ∈ ['=', '-'], sign ≠ '>' ∧ sign ≠ '#' ∧ (sign ≠ '~' ∧ sign ≠ '\x60') ∧
      sign ≠ '<' := by
    simp
  obtain ⟨hquote, hheading, hfence, hhtml⟩ := hsigns sign hsign
  have hrest : Start.quoteRest? l = none := by
    rw [Start.quoteRest?, hflush, if_neg Bool.false_ne_true, Line.atContent, hcontent]
    simp [hquote]
  have hitem : ∀ i, Start.item? l = some i → Start.interrupts i = false :=
    fun i hi => interrupts_of_repeated hsign hcontent hspace hi
  rw [find?_eq_or hflush, hrest, hcontent, heading?_of_head hheading, fence?_of_head hfence,
    blockKind?_of_head hhtml, ← hcontent] at h
  simp only [ite_self, Option.map_none, Option.none_or, Option.or_eq_some_iff] at h
  obtain h | ⟨-, h⟩ := h
  · exact other (Option.some.inj (Option.ite_none_right_eq_some.mp h).2).symm
  · obtain ⟨i, hi, h⟩ := Option.bind_eq_some_iff.mp h
    obtain ⟨hinterrupts, -⟩ := Option.ite_none_right_eq_some.mp h
    have hnot := hitem i (Option.ite_none_right_eq_some.mp hi).2
    rw [hnot] at hinterrupts
    cases hinterrupts

end Canonmark.Markdown
