import Canonmark.Proofs.Markdown.CodeSpan
import Canonmark.Proofs.Markdown.PhraseTokens

/-! Inks in a row: what keeps them apart, and what each of them can stand before. -/
namespace Canonmark.Markdown

open Emphasis (size)
open Phrase (allInks)

variable {inLink : Bool} {i j : Ink} {is : List Ink} {x : Phrase} {xs : List Phrase}
    {first : Option Char}

/-- Two inks that can follow each other: neither goes on with the other, and the first is read as
its strokes. -/
def Ink.Follows (inLink : Bool) (i j : Ink) : Prop := i.Apart j ∧ i.IsReadAt inLink j.written.head?

/-- Inks in a row that are read as their strokes. -/
structure Ink.IsRow (inLink : Bool) (is : List Ink) : Prop where
  filled : ∀ i ∈ is, i.IsFilled
  written : ∀ i ∈ is, i.written ≠ []
  chain : is.IsChain (Ink.Follows inLink)

/-- The ink that a phrase shows at its ends. -/
def Phrase.edge : Phrase → Ink
  | ink i => i
  | emphasis strong _ => delimiter strong

theorem Phrase.head?_inks (x : Phrase) : x.inks.head? = some x.edge := by
  cases x <;> rfl

theorem Phrase.getLast?_inks (x : Phrase) : x.inks.getLast? = some x.edge := by
  cases x with
  | ink i => rfl
  | emphasis strong content =>
    rw [inks, ← List.cons_append, List.getLast?_concat]
    rfl

theorem Phrase.inks_ne_nil (x : Phrase) : x.inks ≠ [] := by
  intro hnil
  have hhead := x.head?_inks
  rw [hnil] at hhead
  cases hhead

theorem head?_allInks (xs : List Phrase) : (allInks xs).head? = xs.head?.map Phrase.edge := by
  cases xs with
  | nil => rfl
  | cons x xs => rw [allInks, List.head?_append_of_ne_nil _ x.inks_ne_nil, x.head?_inks]; rfl

theorem getLast?_allInks (xs : List Phrase) :
    (allInks xs).getLast? = xs.getLast?.map Phrase.edge := by
  obtain rfl | ⟨xs, x, rfl⟩ := xs.eq_nil_or_concat'
  · rfl
  · rw [allInks_eq, List.flatMap_append, List.flatMap_singleton,
      List.getLast?_append_of_ne_nil _ x.inks_ne_nil, x.getLast?_inks, List.getLast?_concat]
    rfl

theorem isRow_allInks (rows : ∀ x ∈ xs, Ink.IsRow inLink x.inks)
    (chain : xs.IsChain fun x y => Ink.Follows inLink x.edge y.edge) :
    Ink.IsRow inLink (allInks xs) where
  filled i hi := by
    rw [allInks_eq] at hi
    obtain ⟨x, hx, hi⟩ := List.mem_flatMap.mp hi
    exact (rows x hx).filled i hi
  written i hi := by
    rw [allInks_eq] at hi
    obtain ⟨x, hx, hi⟩ := List.mem_flatMap.mp hi
    exact (rows x hx).written i hi
  chain := by
    have hsome : [] ∉ xs.map Phrase.inks := by
      intro hnil
      obtain ⟨x, -, heq⟩ := List.mem_map.mp hnil
      exact x.inks_ne_nil heq
    rw [allInks_eq, List.flatMap_def, List.isChain_flatten hsome, List.isChain_map]
    refine ⟨List.forall_mem_map.mpr fun x hx => (rows x hx).chain,
      chain.imp fun x y hxy i hi j hj => ?_⟩
    rw [x.getLast?_inks] at hi
    rw [y.head?_inks] at hj
    obtain rfl := Option.some.inj hi
    obtain rfl := Option.some.inj hj
    exact hxy

theorem Ink.IsRow.areReadBefore (h : Ink.IsRow inLink is) {rest : Chars}
    (last : ∀ i ∈ is.getLast?, i.IsReadAt inLink rest.head?) : Ink.AreReadBefore inLink rest is :=
  areReadBefore_of_chain h.written (h.chain.imp fun _ _ hij => hij.2) last

theorem Ink.IsRow.areStrokes (h : Ink.IsRow inLink is) : AreStrokes (is.flatMap Ink.strokes) :=
  areStrokes_inks h.filled (h.chain.imp fun _ _ hij => hij.1)

theorem delimiter_filled (strong : Bool) :
    (delimiter strong).IsFilled ∧ (delimiter strong).written ≠ [] := by
  cases strong <;> exact ⟨List.cons_ne_nil _ _, List.cons_ne_nil _ _⟩

theorem isReadAt_text {ms : List Mark} (readable : ∀ m ∈ ms, m.IsReadable)
    (bang : (ms.map Mark.sign).getLast? = some '!' → first ≠ some '[')
    (space : (ms.map Mark.sign).getLast? = some ' ' → first ≠ some ' ' ∧ first ≠ some '\n') :
    (Ink.text ms).IsReadAt inLink first := by
  rintro rest rfl
  refine .text readable fun m hm => ⟨?_, ?_⟩
  · rintro rfl
    exact bang (by rw [List.getLast?_map, hm]; rfl)
  · rintro rfl
    obtain ⟨hspace, hbreak⟩ := space (by rw [List.getLast?_map, hm]; rfl)
    obtain _ | ⟨c, rest⟩ := rest
    · simp [Inline.EndsLine]
    · have hc : c ≠ ' ' := by simpa using hspace
      rw [Inline.EndsLine, List.dropWhile_cons_of_neg (by simpa using hc)]
      exact hbreak

theorem isReadAt_delimiter (strong : Bool) (first : Option Char) :
    (delimiter strong).IsReadAt inLink first := by
  have hmark : Mark.IsReadable ⟨'*', false⟩ := ⟨nofun, fun _ => .inr rfl, by simp⟩
  have hlast : ∀ c, c ≠ '*' →
      ((List.replicate (size strong) (Mark.mk '*' false)).map Mark.sign).getLast? ≠ some c := by
    intro c hc
    cases strong <;> simpa [size] using hc.symm
  refine isReadAt_text (fun m hm => List.eq_of_mem_replicate hm ▸ hmark)
    (fun h => absurd h (hlast _ (by decide))) fun h => absurd h (hlast _ (by decide))

theorem isReadAt_codeSpan {t : Chars} (nonempty : t ≠ [])
    (blanks : ∀ c ∈ t, Text.isBlank c → c = ' ') {k : Token} (ends : first ≠ some '\x60') :
    (Ink.solid (Writer.codeSpan t) (.verbatim .code t) k).IsReadAt inLink first := by
  rintro rest rfl
  exact .solid fun ds st _ => readFrom_codeSpan nonempty blanks ends ds st

/-- The white space at the start of a line belongs to the break before it. -/
theorem isReadAt_break {s : Sign} {written : Chars}
    {k : Token} (flush : ∀ c ∈ first, isSpace c = false)
    (hwritten : written = ['\n'] ∧ s = .softbreak ∨ written = ['\\', '\n'] ∧ s = .linebreak) :
    (Ink.solid written (.sign s) k).IsReadAt inLink first := by
  rintro rest rfl
  have hrest : rest.dropWhile isSpace = rest := by
    obtain _ | ⟨c, rest⟩ := rest
    · rfl
    · exact Text.dropWhile_of_head (flush c rfl)
  refine .solid fun ds st _ => ?_
  obtain ⟨rfl, rfl⟩ | ⟨rfl, rfl⟩ := hwritten
  · have hstep : Inline.step ds '\n' rest st = (st.push (.sign .softbreak), rest) := by
      change (st.push (.sign .softbreak), rest.dropWhile isSpace) = _
      rw [hrest]
    exact Inline.readFrom_of_step hstep (List.suffix_refl rest)
  · have hstep : Inline.step ds '\\' ('\n' :: rest) st = (st.push (.sign .linebreak), rest) := by
      change (st.push (.sign .linebreak), rest.dropWhile isSpace) = _
      rw [hrest]
    exact Inline.readFrom_of_step hstep (List.suffix_cons _ _)

/-- At the ends of sound marks no sign of emphasis is left as it is. -/
theorem AreSound.not_isSign {ms : List Mark} (sound : AreSound ms) {m : Mark}
    (hm : m ∈ ms.head? ∨ m ∈ ms.getLast?) (plain : m.escaped = false) :
    Emphasis.isSign m.sign = false := by
  rw [Bool.eq_false_iff]
  intro sign
  obtain hm | hm := hm
  · obtain ⟨post, rfl⟩ := List.head?_eq_some_iff.mp hm
    have hms : m :: post = [] ++ m :: post := rfl
    obtain ⟨-, ⟨p, hp, -⟩, -⟩ := sound.underscore hms plain sign
    cases hp
  · obtain ⟨pre, rfl⟩ := List.getLast?_eq_some_iff.mp hm
    obtain ⟨-, -, q, hq, -⟩ := sound.underscore rfl plain sign
    cases hq

theorem alike_star {m : Mark} (plain : m.escaped = false → Emphasis.isSign m.sign = false) :
    Mark.alike m ⟨'*', false⟩ = false ∧ Mark.alike ⟨'*', false⟩ m = false := by
  obtain ⟨c, _ | _⟩ := m
  · have hsign : Emphasis.isSign c = false := plain rfl
    have hother : '*' ≠ c := by
      rintro rfl
      cases hsign
    constructor
    · simp only [Mark.alike, Emphasis.sameStretch, hsign]
      rfl
    · simp [Mark.alike, Emphasis.sameStretch, Emphasis.isSign, hother]
  · exact ⟨rfl, rfl⟩

/-- A text does not go on with the asterisks beside it. -/
theorem apart_delimiter {ms : List Mark} (sound : AreSound ms) (strong : Bool) :
    (Ink.text ms).Apart (delimiter strong) ∧ (delimiter strong).Apart (.text ms) := by
  have hstar : ∀ m, m ∈ (List.replicate (size strong) (Mark.mk '*' false)).head? ∨
      m ∈ (List.replicate (size strong) (Mark.mk '*' false)).getLast? → m = ⟨'*', false⟩ := by
    rintro m (hm | hm)
    · exact List.eq_of_mem_replicate (List.mem_of_mem_head? hm)
    · exact List.eq_of_mem_replicate (List.mem_of_mem_getLast? hm)
  constructor
  · intro m hm k hk
    rw [hstar k (.inl hk)]
    exact (alike_star (sound.not_isSign (.inr hm))).1
  · intro k hk m hm
    rw [hstar k (.inr hk)]
    exact (alike_star (sound.not_isSign (.inl hm))).2

end Canonmark.Markdown
