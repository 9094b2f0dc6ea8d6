import Canonmark.Proofs.Markdown.Ahead
import Canonmark.Proofs.Markdown.Breaking
import Canonmark.Proofs.Markdown.ListLines

/-! When a line closes what is open and begins a block of its own. -/
namespace Canonmark.Markdown

/-- The classes of the nodes that blocks stand for. -/
def kindsOf (bs : List Block) : List Kind := bs.filterMap Block.kind?

variable {levels : Nat} {o : Outlook} {bs : List Block} {tip : Tip} {l m : Line} {c : Char}
    {cs : Chars} {column : Nat}

@[simp] theorem kindsOf_append (bs cs : List Block) :
    kindsOf (bs ++ cs) = kindsOf bs ++ kindsOf cs :=
  List.filterMap_append

theorem kindsOf_blankEnd (lines : List Chars) : kindsOf (Tip.blankEnd lines) = [] := by
  rw [Tip.blankEnd]
  split <;> rfl

/-- No definition is open. -/
def Tip.Free : Tip → Prop
  | .defined _ => False
  | .quote _ inner | .item _ _ _ _ inner => inner.Free
  | _ => True

theorem definitionsOf_append (bs cs : List Block) :
    Block.definitionsOf (bs ++ cs) = Block.definitionsOf bs ++ Block.definitionsOf cs := by
  induction bs with
  | nil => rfl
  | cons b bs ih =>
    rw [List.cons_append, Block.definitionsOf, Block.definitionsOf, ih, List.append_assoc]

theorem definitionsIn_append (items : List (List Block)) (item : List Block) :
    Block.definitionsIn
      (items ++ [item]) = Block.definitionsIn items ++ Block.definitionsOf item := by
  induction items with
  | nil => simp [Block.definitionsIn]
  | cons first items ih =>
    rw [List.cons_append, Block.definitionsIn, Block.definitionsIn, ih, List.append_assoc]

theorem definitionsOf_singleton (b : Block) : Block.definitionsOf [b] = b.definitions := by
  rw [Block.definitionsOf, Block.definitionsOf, List.append_nil]

theorem definitionsOf_ne_nil {d : Definition} (h : Block.definition d ∈ bs) :
    Block.definitionsOf bs ≠ [] := by
  obtain ⟨before, after, rfl⟩ := List.append_of_mem h
  simp [definitionsOf_append, Block.definitionsOf, Block.definitions]

/-- Where nothing is defined, no definition is open. -/
theorem free_of_backed {inItem : Bool} (backed : tip.Backed bs)
    (none : Block.definitionsOf (bs ++ tip.closeIn inItem) = []) : tip.Free := by
  induction tip generalizing bs inItem with
  | defined pending =>
    obtain ⟨d, hd⟩ := backed
    exact absurd none (definitionsOf_ne_nil (List.mem_append_left _ hd))
  | quote held inner ih =>
    rw [definitionsOf_append, List.append_eq_nil_iff, Tip.closeIn, definitionsOf_singleton,
      Block.definitions] at none
    exact ih backed none.2
  | item marker items width held inner ih =>
    rw [definitionsOf_append, List.append_eq_nil_iff, Tip.closeIn, definitionsOf_singleton,
      Block.definitions, definitionsIn_append, List.append_eq_nil_iff] at none
    exact ih backed.2 none.2.2
  | idle | paragraph _ | fenced _ _ | indented _ | html _ _ | list _ _ => trivial

/-- What a line begins where nothing is open, it begins after what it leaves: a paragraph does not
go on with it. -/
theorem leave_parts (space : isSpace c = false) (breaks : tip.endsInParagraph →
      ∃ s, Start.find? .free true ⟨column, c :: cs⟩ = some s ∧ s.Breaks .lazy) (o : Outlook) :
    tip.leave (levels + 1) o ⟨column, c :: cs⟩ =
      (Tip.fresh (levels + 1) o ⟨column, c :: cs⟩).after tip.close := by
  rw [Tip.leave, Tip.fresh, Tip.freshBy, isBlank_of_head space]
  simp only [Nat.zero_lt_succ, decide_true, Bool.false_eq_true, if_false]
  cases hends : tip.endsInParagraph with
  | true =>
    obtain ⟨s, hfind, hbreaks⟩ := breaks hends
    rw [if_pos rfl, find?_of_free hfind hbreaks, hfind]
  | false =>
    rw [if_neg Bool.false_ne_true]
    cases Start.find? .free true ⟨column, c :: cs⟩ <;> rfl

theorem leaveItem_parts (space : isSpace c = false) (marker : Marker) (items : List (List Block))
    (breaks : tip.endsInParagraph → ∃ s, Start.find? .free true ⟨column, c :: cs⟩ = some s ∧
      s.Breaks .lazy) (other : ∀ i, Start.find? .free true ⟨column, c :: cs⟩ ≠ some (.item i))
    (o : Outlook) :
    tip.leaveItem (levels + 1) o marker items ⟨column, c :: cs⟩ =
      (Tip.fresh (levels + 1) o ⟨column, c :: cs⟩).after tip.close := by
  rw [Tip.leaveItem]
  simp only [Nat.zero_lt_succ, decide_true]
  split
  · rename_i i hfind
    exact absurd (find?_item_of_lazy hfind) (other i)
  · exact leave_parts space breaks o

/-- What it takes for a line to close a tip and to begin a block of its own. -/
structure Tip.Parts (tip : Tip) (l : Line) : Prop where
  breaks : tip.endsInParagraph → ∃ s, Start.find? .free true l = some s ∧ s.Breaks .lazy
  paragraph : ∀ lines, tip = .paragraph lines →
    Start.underline? l = none ∧ ∃ s, Start.find? .free true l = some s ∧ s.Breaks .paragraph
  quote : ∀ held inner, tip = .quote held inner → Start.quoteRest? l = none
  list : ∀ marker items, tip = .list marker items → ∀ i, Start.find? .free true l ≠ some (.item i)
  item : ∀ marker items width held inner, tip = .item marker items width held inner →
    0 < width ∧ ∀ i, Start.find? .free true l ≠ some (.item i)
  fenced : ∀ f lines, tip ≠ .fenced f lines
  html : ∀ kind lines, tip ≠ .html kind lines
  free : ∀ pending, tip ≠ .defined pending

variable (levels) in
theorem Tip.Parts.advance (space : isSpace c = false) (h : tip.Parts ⟨column, c :: cs⟩)
    (o : Outlook) :
    tip.advance (levels + 1) o ⟨column, c :: cs⟩ =
      (Tip.fresh (levels + 1) o ⟨column, c :: cs⟩).after tip.close := by
  cases tip with
  | idle => rfl
  | defined pending => exact absurd rfl (h.free pending)
  | fenced f lines => exact absurd rfl (h.fenced f lines)
  | html kind lines => exact absurd rfl (h.html kind lines)
  | paragraph lines =>
    obtain ⟨hunderline, s, hfind, hbreaks⟩ := h.paragraph lines rfl
    rw [Tip.advance, Tip.fresh, Tip.freshBy, isBlank_of_head space, hunderline]
    simp only [Nat.zero_lt_succ, decide_true, Bool.false_eq_true, if_false, Option.bind_none, hfind,
      find?_of_free hfind hbreaks]
    rfl
  | indented lines =>
    rw [Tip.advance, isBlank_of_head space, isIndented_of_head space]
    rfl
  | quote held inner =>
    rw [Tip.advance, Layer.rest?, h.quote held inner rfl]
    exact leave_parts space h.breaks o
  | list marker items =>
    rw [Tip.advance, isBlank_of_head space, if_neg Bool.false_ne_true]
    exact leaveItem_parts space marker items h.breaks (h.list marker items rfl) o
  | item marker items width held inner =>
    obtain ⟨hwidth, hother⟩ := h.item marker items width held inner rfl
    rw [Tip.advance, isBlank_of_head space, rest?_of_head space hwidth]
    exact leaveItem_parts space marker _ h.breaks hother o

theorem quoteRest?_blank (blank : l.isBlank) : Start.quoteRest? l = none := by
  have hcontent : l.content = [] :=
    List.dropWhile_eq_nil_iff.mpr (by simpa [Line.isBlank] using blank)
  rw [Start.quoteRest?, Line.atContent, hcontent]
  exact ite_self _

theorem leave_blank (blank : l.isBlank) (tip : Tip) (levels : Nat) (o : Outlook) :
    tip.leave levels o l = ⟨tip.close ++ [.blank], .idle⟩ := by
  rw [Tip.leave, blank, if_pos rfl]

/-- After a blank line, no paragraph is open. -/
theorem endsInParagraph_blank (free : tip.Free) (blank : l.isBlank) (levels : Nat) (o : Outlook) :
    (tip.advance levels o l).tip.endsInParagraph = false := by
  induction tip generalizing levels o l with
  | defined pending => exact free.elim
  | idle =>
    rw [Tip.advance, Tip.fresh, Tip.freshBy, blank]
    rfl
  | paragraph lines =>
    rw [Tip.advance, blank]
    rfl
  | fenced f lines =>
    rw [Tip.advance]
    split <;> rfl
  | indented lines =>
    rw [Tip.advance, blank]
    rfl
  | html kind lines =>
    rw [Tip.advance]
    split
    · rfl
    · rw [Tip.addHtml]
      split <;> rfl
  | quote held inner ih =>
    rw [Tip.advance, Layer.rest?, quoteRest?_blank blank, leave_blank blank]
    rfl
  | list marker items =>
    rw [Tip.advance, blank]
    rfl
  | item marker items width held inner ih =>
    rw [Tip.advance, Layer.rest?, blank]
    split
    · rfl
    · exact ih (l := ⟨l.column, []⟩) free rfl _ _

/-- Neither an open fence nor HTML that no blank line ends. -/
def Tip.EndsAtBlankLine : Tip → Prop
  | .fenced _ _ => False
  | .html kind _ => kind = .paragraph
  | _ => True

theorem parts_of_idle (l : Line) : Tip.idle.Parts l :=
  ⟨by simp [Tip.endsInParagraph], by simp, by simp, by simp, by simp, by simp, by simp, by simp⟩

theorem parts_of_indented (lines : List Chars) (l : Line) : (Tip.indented lines).Parts l :=
  ⟨by simp [Tip.endsInParagraph], by simp, by simp, by simp, by simp, by simp, by simp, by simp⟩

theorem parts_of_list {marker : Marker} {items : List (List Block)}
    (other : ∀ i, Start.find? .free true l ≠ some (.item i)) : (Tip.list marker items).Parts l :=
  ⟨by simp [Tip.endsInParagraph], by simp, by simp, by simpa using other, by simp, by simp,
    by simp, by simp⟩

theorem parts_of_item {marker : Marker} {items : List (List Block)} {width : Nat}
    {held : List Block} {inner : Tip} (shut : inner.endsInParagraph = false)
    (wide : 0 < width) (other : ∀ i, Start.find? .free true l ≠ some (.item i)) :
    (Tip.item marker items width held inner).Parts l where
  breaks := by simp [Tip.endsInParagraph, shut]
  paragraph := by simp
  quote := by simp
  list := by simp
  item := by
    rintro _ _ _ _ _ ⟨⟩
    exact ⟨wide, other⟩
  fenced := by simp
  html := by simp
  free := by simp

theorem kindsOf_cons_blankEnd (b : Block) (lines : List Chars) :
    kindsOf (b :: Tip.blankEnd lines) = kindsOf [b] := by
  rw [← List.singleton_append, kindsOf_append, kindsOf_blankEnd, List.append_nil]

/-- After a blank line, a block is parted from any line unless lists meet. -/
theorem advance_blank (free : tip.Free) (ends : tip.EndsAtBlankLine) (blank : l.isBlank)
    (wide : ∀ marker items width held inner, tip = .item marker items width held inner → 0 < width)
    (other : (∃ marker items, tip.close = [.list marker items]) →
      ∀ i, Start.find? .free true m ≠ some (.item i)) (levels : Nat) (o : Outlook) :
    (tip.advance levels o l).tip.Parts m ∧
      kindsOf ((tip.advance levels o l).closed ++ (tip.advance levels o l).tip.close) =
      kindsOf tip.close := by
  have hopen := endsInParagraph_blank free blank levels o
  revert hopen
  cases tip with
  | defined pending => exact free.elim
  | fenced f lines => exact ends.elim
  | idle =>
    rw [Tip.advance, Tip.fresh, Tip.freshBy, blank]
    exact fun _ => ⟨parts_of_idle _, rfl⟩
  | paragraph lines =>
    rw [Tip.advance, blank]
    exact fun _ =>
      ⟨parts_of_idle _, by simp [Tip.close, Tip.closeIn, Tip.lastLines, Block.kind?, kindsOf]⟩
  | indented lines =>
    rw [Tip.advance, blank]
    refine fun _ => ⟨parts_of_indented _ _, ?_⟩
    exact (kindsOf_cons_blankEnd _ _).trans (kindsOf_cons_blankEnd _ _).symm
  | html kind lines =>
    obtain rfl : kind = .paragraph := ends
    rw [Tip.advance, blank]
    exact fun _ => ⟨parts_of_idle _, (kindsOf_cons_blankEnd (Tip.htmlBlock lines) lines).symm⟩
  | quote held inner =>
    rw [Tip.advance, Layer.rest?, quoteRest?_blank blank, leave_blank blank]
    exact fun _ => ⟨parts_of_idle _, by simp [Tip.close, Tip.closeIn, Block.kind?, kindsOf]⟩
  | list marker items =>
    rw [Tip.advance, blank]
    exact fun _ => ⟨parts_of_list (other ⟨_, _, rfl⟩), rfl⟩
  | item marker items width held inner =>
    rw [Tip.advance, Layer.rest?, blank]
    split
    · exact fun _ => ⟨parts_of_list (other ⟨_, _, rfl⟩), rfl⟩
    · exact fun shut => ⟨parts_of_item shut (wide _ _ _ _ _ rfl) (other ⟨_, _, rfl⟩), rfl⟩

end Canonmark.Markdown
