import Canonmark.Proofs.Text.Lines
import Canonmark.Text.Numeral
import Mathlib.Data.Nat.Digits.Defs

/-! Numbers as texts of digits. The digits that are written for a number are read as that number,
and no number is written with more digits than it can be read from. -/
namespace Canonmark.Text

theorem digitValue?_of_isDigit {c : Char} (h : c.isDigit) :
    digitValue? c = some (c.toNat - 48) := by
  rw [digitValue?, if_pos h]

theorem digitValue?_lt {c : Char} {d : Nat} (h : digitValue? c = some d) : d < 10 := by
  unfold digitValue? at h
  split_ifs at h with hdigit
  · have hle : c.toNat ≤ 57 := by
      simp only [Char.isDigit, Bool.and_eq_true, decide_eq_true_eq] at hdigit
      exact hdigit.2
    rw [Option.some.injEq] at h
    omega
  · obtain ⟨z, hz, rfl⟩ := Option.map_eq_some_iff.mp h
    have hbounds := List.find?_some hz
    simp only [Bool.and_eq_true, decide_eq_true_eq] at hbounds
    omega

theorem isBlank_of_isDigit {c : Char} (h : c.isDigit) : isBlank c = false := by
  have hbounds : 48 ≤ c.toNat ∧ c.toNat ≤ 57 := by
    simpa [Char.isDigit, Char.le_def, UInt32.le_iff_toNat_le] using h
  simp only [isBlank, Bool.or_eq_false_iff, Bool.and_eq_false_iff, beq_eq_false_iff_ne,
    decide_eq_false_iff_not]
  omega

theorem ne_of_isDigit {c sign : Char} (h : c.isDigit) (other : sign.isDigit = false) :
    c ≠ sign := by
  rintro rfl
  rw [h] at other
  cases other

/-- A text of decimal digits. -/
def IsDigits (s : Chars) : Prop := s ≠ [] ∧ ∀ c ∈ s, isDecimalDigit c

/-- The values of the digits of a text. -/
def digitValues (s : Chars) : List Nat := s.filterMap digitValue?

theorem length_digitValues {s : Chars} (h : ∀ c ∈ s, isDecimalDigit c) :
    (digitValues s).length = s.length := by
  induction s with
  | nil => rfl
  | cons c s ih =>
    obtain ⟨d, hd⟩ := Option.isSome_iff_exists.mp (h c (by simp))
    rw [digitValues, List.filterMap_cons_some hd, List.length_cons, List.length_cons, ← digitValues,
      ih fun x hx => h x (by simp [hx])]

namespace Numeral

/-- The number that a text of digits is read as. -/
def valueOfText (s : Chars) : Nat := valueOf (digitValues s)

theorem isDigit_of_mem_ofNat {n : Nat} {c : Char} (h : c ∈ ofNat n) : c.isDigit :=
  Nat.isDigit_of_mem_toDigits (by decide) (by decide) h

theorem isDigits_ofNat (n : Nat) : IsDigits (ofNat n) := by
  refine ⟨Nat.toDigits_ne_nil, fun c hc => ?_⟩
  rw [isDecimalDigit, digitValue?_of_isDigit (isDigit_of_mem_ofNat hc), Option.isSome_some]

theorem exists_digit_ofNat (n : Nat) : ∃ c cs, ofNat n = c :: cs ∧ c.isDigit := by
  obtain ⟨c, cs, hcons⟩ := List.exists_cons_of_ne_nil (isDigits_ofNat n).1
  exact ⟨c, cs, hcons, isDigit_of_mem_ofNat (n := n) (by simp [hcons])⟩

private theorem foldl_digitValues {s : Chars} (h : ∀ c ∈ s, c.isDigit) (n : Nat) :
    (digitValues s).foldl (fun n d => 10 * n + d) n = Nat.ofDigitChars 10 s n := by
  induction s generalizing n with
  | nil => rfl
  | cons c s ih =>
    rw [digitValues, List.filterMap_cons_some (digitValue?_of_isDigit (h c (by simp))),
      List.foldl_cons, ← digitValues, ih fun x hx => h x (by simp [hx])]
    rfl

/-- What is written for a number is read as this number. -/
theorem valueOfText_ofNat (n : Nat) : valueOfText (ofNat n) = n := by
  rw [valueOfText, valueOf, foldl_digitValues fun _ => isDigit_of_mem_ofNat]
  exact Nat.ofDigitChars_ten_toDigits

private theorem foldl_lt {ds : List Nat} (h : ∀ d ∈ ds, d < 10) {n k : Nat} (hn : n < 10 ^ k) :
    ds.foldl (fun n d => 10 * n + d) n < 10 ^ (k + ds.length) := by
  induction ds generalizing n k with
  | nil => exact hn
  | cons d ds ih =>
    have hd := h d (by simp)
    have hnext : 10 * n + d < 10 ^ (k + 1) := by rw [Nat.pow_succ]; omega
    rw [List.foldl_cons, List.length_cons, Nat.add_comm ds.length, ← Nat.add_assoc]
    exact ih (fun x hx => h x (by simp [hx])) hnext

/-- Written anew, a number has no more digits than the text that it was read from. -/
theorem length_ofNat_valueOfText {s : Chars} (h : IsDigits s) :
    (ofNat (valueOfText s)).length ≤ s.length := by
  have hpos : 0 < s.length := List.length_pos_iff.mpr h.1
  have hsmall : ∀ d ∈ digitValues s, d < 10 := by
    intro d hd
    obtain ⟨c, _, hc⟩ := List.mem_filterMap.mp hd
    exact digitValue?_lt hc
  have hlt : valueOf (digitValues s) < 10 ^ (0 + (digitValues s).length) :=
    foldl_lt hsmall (by decide)
  rw [Nat.zero_add, length_digitValues h.2] at hlt
  exact (Nat.length_toDigits_le_iff (by decide) hpos).mpr hlt

/-- A number is long if it is not below the least one with so many digits. -/
theorem isLong_iff {i : Int} : isLong i ↔ 10 ^ maxDigits ≤ i.natAbs := by
  rw [isLong, decide_eq_true_eq, ← not_le, ofNat,
    Nat.length_toDigits_le_iff (by decide) (by decide), not_lt]

/-- Digits alone are read one by one. -/
theorem digitsOf?_of_digits {s : Chars} (h : ∀ c ∈ s, c.isDigit) {afterDigit : Bool}
    (begun : afterDigit ∨ s ≠ []) : digitsOf? afterDigit s = some (digitValues s) := by
  induction s generalizing afterDigit with
  | nil =>
    obtain rfl | hne := begun
    · rfl
    · exact absurd rfl hne
  | cons c s ih =>
    have hc := digitValue?_of_isDigit (h c (by simp))
    rw [digitsOf?, hc]
    simp only [ih (fun d hd => h d (by simp [hd])) (.inl rfl), Option.map_some, digitValues,
      List.filterMap_cons_some hc]

/-- What is written for a number is read as a whole number, unless it is too long. -/
theorem toInt_ofNat {n : Nat} (short : (ofNat n).length ≤ maxDigits) : toInt (ofNat n) = .ok n := by
  have hsome : ofNat n ≠ [] := (isDigits_ofNat n).1
  have htrim : trimPadding (ofNat n) = ofNat n := by
    have hpadding : ∀ d ∈ ofNat n, isPadding d = false := by
      intro d hd
      rw [isPadding, isBlank_of_isDigit (isDigit_of_mem_ofNat hd), Bool.false_and]
    have hbounded := bounded_of_forall hsome hpadding
    rw [trimPadding, hbounded.dropWhile, hbounded.dropEndWhile]
  have hread : unsigned (ofNat n) = .ok n := by
    have hlength := length_digitValues (isDigits_ofNat n).2
    rw [unsigned, digitsOf?_of_digits (fun _ => isDigit_of_mem_ofNat) (.inr hsome)]
    dsimp only
    rw [if_neg (by omega)]
    exact congrArg Except.ok (valueOfText_ofNat n)
  have hsign : ∀ sign cs, ofNat n = sign :: cs → sign.isDigit :=
    fun sign cs heq => isDigit_of_mem_ofNat (n := n) (by simp [heq])
  rw [toInt, htrim]
  split
  · rename_i heq
    exact absurd (hsign _ _ heq) (by decide)
  · rename_i heq
    exact absurd (hsign _ _ heq) (by decide)
  · rw [hread]
    rfl

end Numeral
end Canonmark.Text
