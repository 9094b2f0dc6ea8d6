import Canonmark.Markdown.Writer
import Canonmark.Proofs.Markdown.Scan

/-! Lines of words. Nothing in them is escaped when they are written, and when they are read they
are one text each, with a soft break between two. -/
namespace Canonmark.Markdown

/-- Words of ASCII letters and digits, joined by single spaces. -/
inductive IsWords : Chars → Prop
  | word {w : Chars} (some : w ≠ []) (signs : ∀ c ∈ w, c.isAlphanum) : IsWords w
  | space {w rest : Chars} (some : w ≠ []) (signs : ∀ c ∈ w, c.isAlphanum) (after : IsWords rest) :
      IsWords (w ++ ' ' :: rest)

variable {c : Char} {s : Chars}

theorem toNat_of_isAlphanum (h : c.isAlphanum) :
    (48 ≤ c.toNat ∧ c.toNat ≤ 57) ∨
      (65 ≤ c.toNat ∧ c.toNat ≤ 90) ∨ (97 ≤ c.toNat ∧ c.toNat ≤ 122) := by
  obtain h | hdigit := Bool.or_eq_true_iff.mp h
  · obtain hupper | hlower := Bool.or_eq_true_iff.mp h
    · exact .inr (.inl (of_decide_eq_true hupper))
    · obtain ⟨hlow, hhigh⟩ := Bool.and_eq_true_iff.mp hlower
      exact .inr (.inr ⟨of_decide_eq_true hlow, of_decide_eq_true hhigh⟩)
  · obtain ⟨hlow, hhigh⟩ := Bool.and_eq_true_iff.mp hdigit
    exact .inl ⟨of_decide_eq_true hlow, of_decide_eq_true hhigh⟩

/-- Of all signs, only letters and digits are letters and digits. -/
theorem ne_of_isAlphanum (h : c.isAlphanum) (sign : Char) (other : sign.isAlphanum = false) :
    c ≠ sign := by
  rintro rfl
  rw [h] at other
  cases other

theorem isBlank_of_isAlphanum (h : c.isAlphanum) : Text.isBlank c = false := by
  have := toNat_of_isAlphanum h
  simp only [Text.isBlank, Bool.or_eq_false_iff, beq_eq_false_iff_ne, Bool.and_eq_false_iff,
    decide_eq_false_iff_not]
  omega

theorem isSpace_of_isAlphanum (h : c.isAlphanum) : isSpace c = false := by
  simp [isSpace, ne_of_isAlphanum h]

namespace IsWords

theorem head (h : IsWords s) : ∃ c cs, s = c :: cs ∧ c.isAlphanum := by
  cases h with
  | word hne hw | space hne hw =>
    obtain ⟨c, cs, rfl⟩ := List.exists_cons_of_ne_nil hne
    exact ⟨c, _, rfl, hw c (by simp)⟩

theorem last (h : IsWords s) : ∃ cs c, s = cs ++ [c] ∧ c.isAlphanum := by
  induction h with
  | @word w hne hw =>
    exact ⟨w.dropLast, w.getLast hne, (List.dropLast_append_getLast hne).symm, hw _ (by simp)⟩
  | @space w _ _ _ _ ih =>
    obtain ⟨cs, c, rfl, hc⟩ := ih
    exact ⟨w ++ ' ' :: cs, c, by simp, hc⟩

theorem signs (h : IsWords s) : ∀ c ∈ s, c.isAlphanum ∨ c = ' ' := by
  induction h with
  | word _ hw => exact fun c hc => .inl (hw c hc)
  | space _ hw _ ih =>
    intro c hc
    simp only [List.mem_append, List.mem_cons] at hc
    obtain hc | rfl | hc := hc
    · exact .inl (hw c hc)
    · exact .inr rfl
    · exact ih c hc

theorem not_mem (h : IsWords s) (sign : Char) (other : sign.isAlphanum = false ∧ sign ≠ ' ') :
    sign ∉ s := by
  intro hmem
  obtain halnum | hspace := h.signs sign hmem
  · rw [halnum] at other
    exact absurd other.1 (by decide)
  · exact other.2 hspace

/-- No white space stands at an end. -/
theorem bounded (h : IsWords s) {p : Char → Bool} (hp : ∀ c : Char, c.isAlphanum → p c = false) :
    Text.Bounded p s := by
  obtain ⟨c, cs, hcons, hc⟩ := h.head
  obtain ⟨ds, d, hlast, hd⟩ := h.last
  exact ⟨⟨c, by simp [hcons], hp c hc⟩, d, by simp [hlast], hp d hd⟩

private theorem escapeFrom_eq (h : ∀ c ∈ s, c.isAlphanum ∨ c = ' ') (before : Option Char)
    (number : Option Nat) : escapeFrom before number s = s := by
  induction s generalizing before number with
  | nil => rfl
  | cons c s ih =>
    have hplain : ∀ afterNumber, needsEscape before afterNumber c s = false := by
      intro afterNumber
      have hne : ∀ sign : Char, sign.isAlphanum = false → sign ≠ ' ' → c ≠ sign := by
        intro sign hsign hspace
        obtain hc | rfl := h c (by simp)
        · exact ne_of_isAlphanum hc sign hsign
        · exact hspace.symm
      simp [needsEscape, isAlwaysEscaped, isBlockMarker, hne]
    unfold escapeFrom
    simp only [hplain, ih fun d hd => h d (by simp [hd]), Bool.false_eq_true, if_false]

theorem escape_eq (h : IsWords s) : escape s = s := escapeFrom_eq h.signs _ _

theorem plainText_eq {text : String} (h : IsWords text.toList) (style : Style) :
    Writer.plainText style text = text.toList := by
  unfold Writer.plainText
  split
  · exact h.escape_eq
  · rfl

theorem isOrdinary (h : IsWords s) : ∀ c ∈ s, Inline.isOrdinary c := by
  intro c hc
  have hne : ∀ sign : Char, sign.isAlphanum = false ∧ sign ≠ ' ' → c ≠ sign :=
    fun sign hsign heq => h.not_mem sign hsign (heq ▸ hc)
  simp [Inline.isOrdinary, hne]

theorem decoded_eq {text : String} (h : IsWords text.toList) : Token.decoded text = text := by
  have hnone : ∀ {s : Chars}, '&' ∉ s → Text.replaceReferences Text.referenceBody? 0 s = s := by
    intro s hs
    induction s with
    | nil => rfl
    | cons c s ih =>
      rw [List.mem_cons, not_or] at hs
      simp [Text.replaceReferences, Ne.symm hs.1, ih hs.2]
  rw [Token.decoded, Text.decodeReferences, hnone (h.not_mem '&' (by decide)), String.ofList_toList]

end IsWords

section Lined

variable {α β : Type} (text : String → α) (softbreak : α)

/-- What stands for lines: a text for each, and a break between two. -/
def lined : List String → List α
  | [] => []
  | [l] => [text l]
  | l :: m :: ls => text l :: softbreak :: lined (m :: ls)

theorem map_lined (f : α → β) (ls : List String) :
    (lined text softbreak ls).map f = lined (f ∘ text) (f softbreak) ls := by
  fun_induction lined text softbreak ls with
  | case1 | case2 => rfl
  | case3 l m ls ih => rw [List.map_cons, List.map_cons, ih, lined, Function.comp_apply]

theorem mem_lined {a : α} {ls : List String} (h : a ∈ lined text softbreak ls) :
    (∃ l ∈ ls, a = text l) ∨ a = softbreak := by
  fun_induction lined text softbreak ls with
  | case1 => cases h
  | case2 l => exact .inl ⟨l, by simp, List.mem_singleton.mp h⟩
  | case3 l m ls ih =>
    rw [List.mem_cons, List.mem_cons] at h
    obtain rfl | rfl | h := h
    · exact .inl ⟨l, by simp, rfl⟩
    · exact .inr rfl
    · obtain ⟨k, hk, rfl⟩ | rfl := ih h
      · exact .inl ⟨k, by simp [List.mem_cons.mp hk], rfl⟩
      · exact .inr rfl

end Lined

/-- The lines of a text. -/
def lineTexts (ls : List String) : List Chars := ls.map String.toList

variable {ls : List String}

/-- Lines are read one after the other, after pieces that do not end in plain text. -/
theorem readFrom_lines (ds : List Definition) (some : ls ≠ []) (words : ∀ l ∈ ls, IsWords l.toList)
    {ps : List Piece} (parted : ∀ text, Inline.push (.plain text) ps = .plain text :: ps) :
    Inline.readFrom ds 0 (Text.unlines (lineTexts ls)) { base := ps } =
      { base := (lined (fun l => .plain l.toList) (.sign .softbreak) ls).reverse ++ ps } := by
  induction ls generalizing ps with
  | nil => exact absurd rfl some
  | cons l ls ih =>
    obtain ⟨hl, hls⟩ := List.forall_mem_cons.mp words
    obtain ⟨c, cs, hcons, _⟩ := hl.head
    cases ls with
    | nil =>
      rw [lineTexts, List.map_singleton, Text.unlines_singleton,
        Inline.readFrom_plain (by simp [hcons]) hl.isOrdinary, Inline.Reading.push, parted]
      rfl
    | cons m ls =>
      obtain ⟨d, ds', hm, hd⟩ := (hls m (by simp)).head
      obtain ⟨t, e, hlast, he⟩ := hl.last
      have hbegins : ∃ d t, Text.unlines (lineTexts (m :: ls)) = d :: t ∧ isSpace d = false := by
        refine ⟨d, ?_⟩
        cases ls with
        | nil => exact ⟨ds', by simp [lineTexts, hm], isSpace_of_isAlphanum hd⟩
        | cons n ls =>
          exact ⟨_, by rw [lineTexts, List.map_cons, Text.unlines_cons _ (by simp), hm]; rfl,
            isSpace_of_isAlphanum hd⟩
      have hfirst : Inline.readFrom ds 0 (Text.unlines (lineTexts (l :: m :: ls))) { base := ps } =
          Inline.readFrom ds 0 (Text.unlines (lineTexts (m :: ls)))
            { base := .sign .softbreak :: .plain l.toList :: ps } := by
        rw [lineTexts, List.map_cons, Text.unlines_cons _ (by simp)]
        refine (Inline.readFrom_line ⟨t, e, hlast, ne_of_isAlphanum he ' ' rfl⟩ hl.isOrdinary
          hbegins).trans ?_
        rw [Inline.Reading.push, Inline.Reading.push, parted]
        rfl
      rw [hfirst, ih (by simp) hls fun _ => rfl, lined]
      simp

theorem partsOf_lined (ls : List String) :
    Piece.partsOf false (lined (fun l => .plain l.toList) (.sign .softbreak) ls) =
      lined (fun l => .plain l.toList) (.token (.sign .softbreak)) ls := by
  fun_induction lined (fun l => Part.plain l.toList) (.token (.sign .softbreak)) ls with
  | case1 | case2 => rfl
  | case3 l m ls ih =>
    rw [← ih]
    rfl

/-- Lines of words are texts and soft breaks. -/
theorem tokens_lines (ds : List Definition) (some : ls ≠ []) (words : ∀ l ∈ ls, IsWords l.toList) :
    Inline.tokens ds (Text.unlines (lineTexts ls)) = lined .text (.sign .softbreak) ls := by
  have hpieces := Inline.pieces_of_readFrom (readFrom_lines ds some words fun _ => rfl)
  rw [List.append_nil, List.reverse_reverse] at hpieces
  have hplain : ∀ p ∈ lined (fun l => Part.plain l.toList) (.token (.sign .softbreak)) ls,
      Emphasis.holdsSigns p = false := by
    intro p hp
    obtain ⟨l, hl, rfl⟩ | rfl := mem_lined _ _ hp
    · simpa [Emphasis.holdsSigns, Emphasis.isSign] using
        fun c hc => ⟨ne_of_mem_of_not_mem hc ((words l hl).not_mem '*' (by decide)),
          ne_of_mem_of_not_mem hc ((words l hl).not_mem '_' (by decide))⟩
    · rfl
  rw [Inline.tokens, hpieces, Piece.tokensOf, partsOf_lined,
    Emphasis.tokensOf_of_plain hplain, map_lined]
  simp [Function.comp_def, Emphasis.plainToken, Emphasis.textToken]

end Canonmark.Markdown
