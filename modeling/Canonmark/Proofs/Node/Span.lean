import Canonmark.Node.Span
import Canonmark.Proofs.Outcome
import Canonmark.Proofs.Text.Numeral
import Mathlib.Data.List.TakeWhile

/-! Which texts denote a span. Reading takes these texts and no others, and what is written for a
span denotes it. -/
namespace Canonmark

theorem Text.trim_of_forall {s : Chars} (h : ∀ c ∈ s, isBlank c = false) : trim s = s := by
  have hstart : ∀ t : Chars, (∀ c ∈ t, isBlank c = false) → t.dropWhile isBlank = t := by
    intro t ht
    cases t with
    | nil => rfl
    | cons c t => rw [List.dropWhile_cons_of_neg (by simp [ht c (by simp)])]
  rw [trim, trimEnd, trimStart, hstart s h, dropEndWhile,
    hstart s.reverse fun c hc => h c (List.mem_reverse.mp hc), List.reverse_reverse]

namespace Span

open Text (IsDigits digitValues)
open Text.Numeral (valueOfText)

/-- Digits of a number that is not too long to be read. -/
def IsNumber (s : Chars) : Prop := IsDigits s ∧ s.length ≤ Text.Numeral.maxDigits

/-- Texts of the form `line:column-line:column` and what they denote. -/
inductive Denotes : Chars → Span → Prop
  | mk {a b c d : Chars} (startLine : IsNumber a) (startColumn : IsNumber b) (endLine : IsNumber c)
      (endColumn : IsNumber d) :
      Denotes (a ++ ':' :: (b ++ '-' :: (c ++ ':' :: d)))
        ⟨valueOfText a, valueOfText b, valueOfText c, valueOfText d⟩

/-- A span none of whose numbers is too long to be written. -/
def IsWritable (s : Span) : Prop :=
  ∀ n ∈ [s.startLine, s.startColumn, s.endLine, s.endColumn],
    (Text.Numeral.ofNat n).length ≤ Text.Numeral.maxDigits

instance : DecidablePred IsWritable :=
  fun s => inferInstanceAs (Decidable (∀ n ∈ [s.startLine, s.startColumn, s.endLine, s.endColumn],
    (Text.Numeral.ofNat n).length ≤ Text.Numeral.maxDigits))

theorem leadingDigits_eq (s : Chars) :
    leadingDigits s =
      (digitValues (s.takeWhile Text.isDecimalDigit), s.dropWhile Text.isDecimalDigit) := by
  induction s with
  | nil => rfl
  | cons c s ih =>
    cases h : Text.digitValue? c with
    | none =>
      have hc : Text.isDecimalDigit c = false := by rw [Text.isDecimalDigit, h]; rfl
      simp [leadingDigits, h, hc, digitValues]
    | some d =>
      have hc : Text.isDecimalDigit c = true := by rw [Text.isDecimalDigit, h]; rfl
      simp [leadingDigits, h, hc, ih, digitValues]

theorem leadingDigits_append {a rest : Chars} (h : IsDigits a)
    (stop : ∀ c ∈ rest.head?, Text.isDecimalDigit c = false) :
    leadingDigits (a ++ rest) = (digitValues a, rest) := by
  rw [leadingDigits_eq, List.takeWhile_append_of_pos h.2, List.dropWhile_append_of_pos h.2]
  cases rest with
  | nil => simp
  | cons c rest =>
    have hc : Text.isDecimalDigit c = false := stop c rfl
    simp [hc]

/-- The digits that a text begins with, if there are some. -/
private theorem of_leadingDigits {s rest : Chars} {d : Nat} {ds : List Nat}
    (h : leadingDigits s = (d :: ds, rest)) :
    ∃ a, IsDigits a ∧ s = a ++ rest ∧ digitValues a = d :: ds := by
  rw [leadingDigits_eq, Prod.mk.injEq] at h
  refine ⟨s.takeWhile Text.isDecimalDigit, ⟨?_, fun c hc => List.mem_takeWhile_imp hc⟩, ?_, h.1⟩
  · intro hnil
    rw [hnil] at h
    cases h.1
  · rw [← h.2, List.takeWhile_append_dropWhile]

private theorem digitValues_cons {a : Chars} (h : IsDigits a) :
    ∃ d ds, digitValues a = d :: ds := by
  have hlength := Text.length_digitValues h.2
  cases hds : digitValues a with
  | nil =>
    rw [hds] at hlength
    exact absurd (List.length_eq_zero_iff.mp hlength.symm) h.1
  | cons d ds => exact ⟨d, ds, rfl⟩

theorem digitsUpTo?_append {sign : Char} (other : Text.isDecimalDigit sign = false) {a : Chars}
    (h : IsDigits a) (rest : Chars) :
    digitsUpTo? sign (a ++ sign :: rest) = some (digitValues a, rest) := by
  obtain ⟨d, ds, hds⟩ := digitValues_cons h
  rw [digitsUpTo?, leadingDigits_append h (by simpa using other), hds]
  simp

theorem of_digitsUpTo? {sign : Char} {s rest : Chars} {ds : List Nat}
    (h : digitsUpTo? sign s = some (ds, rest)) :
    ∃ a, IsDigits a ∧ s = a ++ sign :: rest ∧ digitValues a = ds := by
  unfold digitsUpTo? at h
  split at h
  · rename_i hds
    obtain ⟨a, ha, rfl, hvalues⟩ := of_leadingDigits hds
    split_ifs at h with hsign
    rw [beq_iff_eq] at hsign
    rw [Option.some.injEq, Prod.mk.injEq] at h
    exact ⟨a, ha, by rw [hsign, h.2], hvalues.trans h.1⟩
  · cases h

/-- A number is read up to its end, and the number that follows is read after the sign. -/
theorem numbers?_eq_some_iff {s : Chars} {w x y z : List Nat} :
    numbers? s = some (w, x, y, z) ↔
      ∃ a b c d, (IsDigits a ∧ IsDigits b ∧ IsDigits c ∧ IsDigits d) ∧
        s = a ++ ':' :: (b ++ '-' :: (c ++ ':' :: d)) ∧
        w = digitValues a ∧ x = digitValues b ∧ y = digitValues c ∧ z = digitValues d := by
  constructor
  · intro h
    simp only [numbers?, Option.bind_eq_bind, Option.bind_eq_some_iff, Prod.exists] at h
    obtain ⟨w', s₁, h₁, x', s₂, h₂, y', s₃, h₃, h⟩ := h
    obtain ⟨a, ha, rfl, rfl⟩ := of_digitsUpTo? h₁
    obtain ⟨b, hb, rfl, rfl⟩ := of_digitsUpTo? h₂
    obtain ⟨c, hc, rfl, rfl⟩ := of_digitsUpTo? h₃
    split at h
    · rename_i hds
      obtain ⟨d, hd, rfl, hvalues⟩ := of_leadingDigits hds
      simp only [Option.some.injEq, Prod.mk.injEq] at h
      obtain ⟨rfl, rfl, rfl, rfl⟩ := h
      exact ⟨a, b, c, d, ⟨ha, hb, hc, hd⟩, by rw [List.append_nil], rfl, rfl, rfl, hvalues.symm⟩
    · cases h
  · rintro ⟨a, b, c, d, ⟨ha, hb, hc, hd⟩, rfl, rfl, rfl, rfl, rfl⟩
    have hcolon : Text.isDecimalDigit ':' = false := by decide
    have hdash : Text.isDecimalDigit '-' = false := by decide
    have h₁ := digitsUpTo?_append hcolon ha (b ++ '-' :: (c ++ ':' :: d))
    have h₂ := digitsUpTo?_append hdash hb (c ++ ':' :: d)
    have h₃ := digitsUpTo?_append hcolon hc d
    have h₄ : leadingDigits (d ++ []) = (digitValues d, []) := leadingDigits_append hd (by simp)
    obtain ⟨n, ns, hns⟩ := digitValues_cons hd
    rw [List.append_nil, hns] at h₄
    simp only [numbers?, h₁, h₂, h₃, h₄, hns, Option.bind_eq_bind, Option.bind_some]

private theorem number_eq_ok_iff {s : Chars} (h : IsDigits s) {n : Nat} :
    number (digitValues s) = .ok n ↔ s.length ≤ Text.Numeral.maxDigits ∧ valueOfText s = n := by
  rw [number, Text.length_digitValues h.2]
  split_ifs with hlong
  · simp [hlong]
  · simp [valueOfText, Nat.le_of_not_lt hlong]

/-- Reading takes the texts that denote a span, with white space around them. -/
theorem ofText_eq_ok_iff {text : String} {span : Span} :
    ofText text = .ok span ↔ Denotes (Text.trim text.toList) span := by
  constructor
  · intro h
    unfold ofText at h
    split at h
    · cases h
    · rename_i w x y z hnumbers
      obtain ⟨a, b, c, d, ⟨ha, hb, hc, hd⟩, htext, rfl, rfl, rfl, rfl⟩ :=
        numbers?_eq_some_iff.mp hnumbers
      obtain ⟨_, h₁, h⟩ := bind_eq_ok h
      obtain ⟨_, h₂, h⟩ := bind_eq_ok h
      obtain ⟨_, h₃, h⟩ := bind_eq_ok h
      obtain ⟨_, h₄, h⟩ := bind_eq_ok h
      obtain ⟨hla, rfl⟩ := (number_eq_ok_iff ha).mp h₁
      obtain ⟨hlb, rfl⟩ := (number_eq_ok_iff hb).mp h₂
      obtain ⟨hlc, rfl⟩ := (number_eq_ok_iff hc).mp h₃
      obtain ⟨hld, rfl⟩ := (number_eq_ok_iff hd).mp h₄
      rw [htext, ← Except.ok.inj h]
      exact .mk ⟨ha, hla⟩ ⟨hb, hlb⟩ ⟨hc, hlc⟩ ⟨hd, hld⟩
  · intro h
    generalize htext : Text.trim text.toList = s at h
    obtain ⟨⟨ha, hla⟩, ⟨hb, hlb⟩, ⟨hc, hlc⟩, ⟨hd, hld⟩⟩ := h
    have hnumbers :=
      numbers?_eq_some_iff.mpr ⟨_, _, _, _, ⟨ha, hb, hc, hd⟩, htext, rfl, rfl, rfl, rfl⟩
    rw [ofText, hnumbers]
    simp only [(number_eq_ok_iff ha).mpr ⟨hla, rfl⟩, (number_eq_ok_iff hb).mpr ⟨hlb, rfl⟩,
      (number_eq_ok_iff hc).mpr ⟨hlc, rfl⟩, (number_eq_ok_iff hd).mpr ⟨hld, rfl⟩]
    rfl

theorem denotes_toText {s : Span} (h : s.IsWritable) : Denotes s.toText.toList s := by
  have number : ∀ n ∈ [s.startLine, s.startColumn, s.endLine, s.endColumn],
      IsNumber (Text.Numeral.ofNat n) := fun n hn => ⟨Text.Numeral.isDigits_ofNat n, h n hn⟩
  have hmk := Denotes.mk (number s.startLine (by simp)) (number s.startColumn (by simp))
    (number s.endLine (by simp)) (number s.endColumn (by simp))
  simp only [Text.Numeral.valueOfText_ofNat] at hmk
  simpa [toText] using hmk

theorem trim_toText (s : Span) : Text.trim s.toText.toList = s.toText.toList := by
  apply Text.trim_of_forall
  have hdigits : ∀ n, ∀ c ∈ Text.Numeral.ofNat n, Text.isBlank c = false :=
    fun n c hc => Text.isBlank_of_isDigit (Text.Numeral.isDigit_of_mem_ofNat hc)
  have hcolon : Text.isBlank ':' = false := by decide
  have hdash : Text.isBlank '-' = false := by decide
  simp only [toText, String.toList_ofList, List.forall_mem_append, List.forall_mem_cons]
  exact ⟨⟨⟨hdigits _, hcolon, hdigits _⟩, hdash, hdigits _⟩, hcolon, hdigits _⟩

/-- What is written for a span is read as this span. -/
theorem ofText_toText {s : Span} (h : s.IsWritable) : ofText s.toText = .ok s := by
  rw [ofText_eq_ok_iff, trim_toText]
  exact denotes_toText h

/-- A span that has been read can be written. -/
theorem isWritable_of_denotes {text : Chars} {s : Span} (h : Denotes text s) : s.IsWritable := by
  obtain ⟨ha, hb, hc, hd⟩ := h
  have short : ∀ {t : Chars}, IsNumber t →
      (Text.Numeral.ofNat (valueOfText t)).length ≤ Text.Numeral.maxDigits :=
    fun ht => (Text.Numeral.length_ofNat_valueOfText ht.1).trans ht.2
  simp only [IsWritable, List.forall_mem_cons]
  exact ⟨short ha, short hb, short hc, short hd, nofun⟩

end Span
end Canonmark
