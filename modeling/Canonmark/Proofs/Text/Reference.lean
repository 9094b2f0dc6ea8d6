import Canonmark.Text.CharacterReference
import Mathlib.Data.List.TakeWhile

/-! Which texts are the bodies of character references, and which texts no reference changes. -/
namespace Canonmark.Text

variable {s t body : Chars}

/-- The body of a reference: a number or a name, and a semicolon. -/
inductive IsReferenceBody : Chars → Prop
  | hexadecimal {x : Char} {digits : Chars} (hx : x = 'x' ∨ x = 'X') (some : digits ≠ [])
      (hex : ∀ d ∈ digits, isHexDigit d) : IsReferenceBody ('#' :: x :: (digits ++ [';']))
  | decimal {digits : Chars} (some : 1 ≤ digits.length) (few : digits.length ≤ 7)
      (dec : ∀ d ∈ digits, d.isDigit) : IsReferenceBody ('#' :: (digits ++ [';']))
  | name {name : Chars} (some : 1 ≤ name.length) (few : name.length ≤ 32)
      (signs : ∀ c ∈ name, endsName c = false) : IsReferenceBody (name ++ [';'])

/-- A run that a semicolon ends, with what stands before it. -/
theorem closedRun_eq_some {p : Char → Bool} {test : Bool} (before : Chars)
    (h : (if test && (s.drop (s.takeWhile p).length).head? == some ';' then
        some ((before ++ s).take ((s.takeWhile p).length + (before.length + 1)))
      else none) = some body) :
    test ∧ body = before ++ (s.takeWhile p ++ [';']) ∧ body <+: before ++ s := by
  split at h
  · rename_i hcond
    rw [Bool.and_eq_true, beq_iff_eq] at hcond
    obtain ⟨htest, hclosed⟩ := hcond
    obtain ⟨t, ht⟩ := List.head?_eq_some_iff.mp hclosed
    have hs : s.takeWhile p ++ ';' :: t = s := by
      rw [← ht]
      exact List.prefix_iff_eq_append.mp (List.takeWhile_prefix p)
    have hbody : body = before ++ (s.takeWhile p ++ [';']) := by
      have hlength : (s.takeWhile p).length + (before.length + 1) =
          (before ++ (s.takeWhile p ++ [';'])).length := by
        simp
        omega
      have hall : before ++ s = before ++ (s.takeWhile p ++ [';']) ++ t := by
        conv => lhs; rw [← hs]
        simp
      rw [← Option.some.inj h, hlength, hall, List.take_left]
    refine ⟨htest, hbody, t, ?_⟩
    conv => rhs; rw [← hs]
    simp [hbody]
  · cases h

theorem closedRun_of_run {p : Char → Bool} (test : Chars → Bool) (before : Chars) {u : Chars}
    (h : ∀ c ∈ u, p c) (stops : p ';' = false) (htest : test u) (t : Chars) :
    (if test ((u ++ ';' :: t).takeWhile p) &&
          ((u ++ ';' :: t).drop ((u ++ ';' :: t).takeWhile p).length).head? == some ';' then
        some ((before ++ (u ++ ';' :: t)).take
          (((u ++ ';' :: t).takeWhile p).length + (before.length + 1)))
      else none) = some (before ++ (u ++ [';'])) := by
  have hrun : (u ++ ';' :: t).takeWhile p = u := by
    rw [List.takeWhile_append_of_pos h, List.takeWhile_cons_of_neg (by simp [stops]),
      List.append_nil]
  have hlength : u.length + (before.length + 1) = (before ++ (u ++ [';'])).length := by
    simp
    omega
  have hall : before ++ (u ++ ';' :: t) = before ++ (u ++ [';']) ++ t := by simp
  rw [hrun, List.drop_left, htest, hlength, hall, List.take_left]
  rfl

/-- The body at the start of a text is that reference body which the text begins with. -/
theorem referenceBody?_eq_some_iff :
    referenceBody? s = some body ↔ IsReferenceBody body ∧ body <+: s := by
  constructor
  · intro h
    have hhex : ∀ {x rest}, x = 'x' ∨ x = 'X' → s = '#' :: x :: rest → (
        if !(rest.takeWhile isHexDigit).isEmpty &&
            (rest.drop (rest.takeWhile isHexDigit).length).head? == some ';' then
          some (s.take ((rest.takeWhile isHexDigit).length + 3))
        else none) = some body → IsReferenceBody body ∧ body <+: s := by
      rintro x rest hx rfl h
      obtain ⟨some, rfl, hstart⟩ := closedRun_eq_some ['#', x] h
      exact ⟨.hexadecimal hx (by simpa using some) fun d hd => List.mem_takeWhile_imp hd, hstart⟩
    unfold referenceBody? at h
    split at h
    · exact hhex (.inl rfl) rfl h
    · exact hhex (.inr rfl) rfl h
    · rename_i rest _ _
      obtain ⟨few, rfl, hstart⟩ := closedRun_eq_some ['#'] h
      rw [Bool.and_eq_true, decide_eq_true_eq, decide_eq_true_eq] at few
      exact ⟨.decimal few.1 few.2 fun d hd => List.mem_takeWhile_imp hd, hstart⟩
    · obtain ⟨few, rfl, hstart⟩ := closedRun_eq_some [] h
      rw [Bool.and_eq_true, decide_eq_true_eq, decide_eq_true_eq] at few
      exact ⟨.name few.1 few.2 fun c hc => by simpa using List.mem_takeWhile_imp hc, hstart⟩
  · rintro ⟨hbody, t, rfl⟩
    cases hbody with
    | @hexadecimal x digits hx some hex =>
      have hclosed := closedRun_of_run (!·.isEmpty) ['#', x] hex rfl (by simpa using some) t
      rw [List.cons_append, List.cons_append, List.append_assoc]
      obtain rfl | rfl := hx <;> exact hclosed
    | @decimal digits some few dec =>
      have hclosed := closedRun_of_run (fun u => 1 ≤ u.length && u.length ≤ 7) ['#'] dec rfl
        (by simp [some, few]) t
      obtain ⟨d, ds, rfl⟩ := List.exists_cons_of_length_pos some
      have hd := dec d (by simp)
      have hne : d ≠ 'x' ∧ d ≠ 'X' := by constructor <;> rintro rfl <;> exact absurd hd (by decide)
      rw [List.cons_append, List.append_assoc, referenceBody?]
      · exact hclosed
      · rintro rest heq
        exact hne.1 (List.cons.inj heq).1
      · rintro rest heq
        exact hne.2 (List.cons.inj heq).1
    | @name name some few signs =>
      have hclosed := closedRun_of_run (p := (!endsName ·)) (fun u => 1 ≤ u.length && u.length ≤ 32)
        [] (by simpa using signs) rfl (by simp [some, few]) t
      obtain ⟨c, cs, rfl⟩ := List.exists_cons_of_length_pos some
      have hne : c ≠ '#' := by rintro rfl; exact absurd (signs '#' (by simp)) (by decide)
      rw [List.append_assoc, referenceBody?]
      · exact hclosed
      all_goals
        intro rest heq
        exact hne (List.cons.inj heq).1

/-- A body at the start of a text is one at the start of each text that begins with it. -/
theorem referenceBody?_of_prefix (h : referenceBody? s = some body) (hstart : body <+: t) :
    referenceBody? t = some body :=
  referenceBody?_eq_some_iff.mpr ⟨(referenceBody?_eq_some_iff.mp h).1, hstart⟩

theorem referenceBody?_append (h : referenceBody? s = some body) (t : Chars) :
    referenceBody? (s ++ t) = some body :=
  referenceBody?_of_prefix h ((referenceBody?_eq_some_iff.mp h).2.trans (List.prefix_append s t))

namespace IsReferenceBody

/-- A body ends with its only semicolon, and holds no other reference. -/
theorem exists_name (h : IsReferenceBody body) : ∃ c cs, body = c :: cs ++ [';'] ∧ '&' ∉ body := by
  have hsign : ∀ {p : Char → Bool} {u : Chars}, (∀ c ∈ u, p c) → p '&' = false → '&' ∉ u := by
    intro p u hu hp hmem
    rw [hu _ hmem] at hp
    cases hp
  cases h with
  | @hexadecimal x digits hx some hex =>
    have hdigits := hsign hex (by decide)
    exact ⟨'#', x :: digits, rfl, by obtain rfl | rfl := hx <;> simp [hdigits]⟩
  | @decimal digits some few dec =>
    have hdigits := hsign dec (by decide)
    exact ⟨'#', digits, rfl, by simp [hdigits]⟩
  | @name name some few signs =>
    have hname := hsign (p := (!endsName ·)) (by simpa using signs) (by decide)
    obtain ⟨c, cs, rfl⟩ := List.exists_cons_of_length_pos some
    exact ⟨c, cs, rfl, by simpa using hname⟩

end IsReferenceBody

theorem replaceReferences_drop {body? : Chars → Option Chars} {n : Nat} (h : n ≤ s.length) :
    replaceReferences body? n s = replaceReferences body? 0 (s.drop n) := by
  induction n generalizing s with
  | zero => rfl
  | succ n ih =>
    obtain ⟨c, s, rfl⟩ := List.exists_cons_of_length_pos (Nat.zero_lt_of_lt h)
    rw [replaceReferences, List.drop_succ_cons]
    exact ih (by simpa using h)

/-- A text in which each reference stands for itself stays as it is. -/
theorem decodeReferences_eq_self
    (h : ∀ before rest body, s = before ++ '&' :: rest → referenceBody? rest = some body →
      referenceText body = '&' :: body) : decodeReferences s = s := by
  unfold decodeReferences
  induction hlength : s.length using Nat.strong_induction_on generalizing s with
  | _ n ih =>
    cases s with
    | nil => rfl
    | cons c s =>
      have hrest : ∀ t, t <:+ s → replaceReferences referenceBody? 0 t = t := by
        rintro t ⟨u, rfl⟩
        refine ih t.length ?_
          (fun before rest body ht => h (c :: u ++ before) rest body (by simp [ht])) rfl
        rw [← hlength, List.length_cons, List.length_append]
        omega
      rw [replaceReferences]
      split
      · rename_i hc
        obtain rfl := beq_iff_eq.mp hc
        split
        · rename_i body hbody
          obtain ⟨t, rfl⟩ := (referenceBody?_eq_some_iff.mp hbody).2
          rw [h [] _ _ rfl hbody, replaceReferences_drop (by simp), List.drop_left,
            hrest t (List.suffix_append _ _), List.cons_append]
        · rw [hrest s (List.suffix_refl s)]
      · rw [hrest s (List.suffix_refl s)]

end Canonmark.Text
