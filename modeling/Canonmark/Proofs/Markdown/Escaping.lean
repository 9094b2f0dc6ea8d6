import Canonmark.Markdown.Escape
import Canonmark.Proofs.Markdown.PlainLines
import Canonmark.Proofs.Text.Reference

/-! Which signs of a text are escaped when it is written, and that the line that is written begins
no block. -/
namespace Canonmark.Markdown

/-- A sign of a text, and whether it is escaped. -/
structure Mark where
  sign : Char
  escaped : Bool

namespace Mark

/-- A sign as it is written. -/
def text (m : Mark) : Chars := if m.escaped then ['\\', m.sign] else [m.sign]

end Mark

/-- The digits left of a number after one more character. -/
def digitsLeft : Option Nat → Option Nat
  | some (n + 1) => some n
  | _ => none

/-- The marks of a text of which `before` is the last character already done. -/
def marksFrom (before : Option Char) (number : Option Nat) : Chars → List Mark
  | [] => []
  | c :: cs =>
    ⟨c, needsEscape before (number == some 0) c cs⟩ :: marksFrom (some c) (digitsLeft number) cs

/-- The marks of a text. -/
def marks (s : Chars) : List Mark :=
  marksFrom none (if leadingNumber s == 0 then none else some (leadingNumber s)) s

variable {s : Chars} {before : Option Char} {number : Option Nat} {pre post : List Mark} {m : Mark}

theorem escapeFrom_eq (before : Option Char) (number : Option Nat) (s : Chars) :
    escapeFrom before number s = (marksFrom before number s).flatMap Mark.text := by
  induction s generalizing before number with
  | nil => rfl
  | cons c cs ih =>
    have hstep : escapeFrom before number (c :: cs) =
        if needsEscape before (number == some 0) c cs then
          '\\' :: c :: escapeFrom (some c) (digitsLeft number) cs
        else c :: escapeFrom (some c) (digitsLeft number) cs := rfl
    rw [hstep, marksFrom, List.flatMap_cons, ← ih, Mark.text]
    dsimp only
    split <;> rfl

theorem map_sign_marksFrom (before : Option Char) (number : Option Nat) (s : Chars) :
    (marksFrom before number s).map Mark.sign = s := by
  induction s generalizing before number with
  | nil => rfl
  | cons c cs ih => rw [marksFrom, List.map_cons, ih]

/-- A text is written sign by sign. -/
theorem escape_eq (s : Chars) : escape s = (marks s).flatMap Mark.text := escapeFrom_eq _ _ s

theorem map_sign_marks (s : Chars) : (marks s).map Mark.sign = s := map_sign_marksFrom _ _ s

/-- Whether a sign is escaped depends on the sign before it, on what follows, and on whether a
number stands before it. -/
theorem escaped_marksFrom (h : marksFrom before number s = pre ++ m :: post) :
    m.escaped =
      needsEscape ((pre.getLast?.map Mark.sign).or before) (number == some pre.length) m.sign
        (post.map Mark.sign) := by
  induction pre generalizing before number s with
  | nil =>
    cases s with
    | nil => cases h
    | cons c cs =>
      rw [marksFrom, List.nil_append, List.cons.injEq] at h
      obtain ⟨rfl, rfl⟩ := h
      rw [map_sign_marksFrom]
      rfl
  | cons p pre ih =>
    cases s with
    | nil => cases h
    | cons c cs =>
      rw [marksFrom, List.cons_append, List.cons.injEq] at h
      obtain ⟨rfl, h⟩ := h
      have hbefore :
          ((⟨c, needsEscape before (number == some 0) c cs⟩ :: pre).getLast?.map Mark.sign).or
          before = (pre.getLast?.map Mark.sign).or (some c) := by
        rw [List.getLast?_cons]
        cases pre.getLast? <;> rfl
      have hnumber : (number == some (pre.length + 1)) =
          (digitsLeft number == some pre.length) := by
        obtain _ | _ | n := number <;> simp [digitsLeft]
      rw [hbefore, List.length_cons, hnumber]
      exact ih h

theorem escaped_marks (h : marks s = pre ++ m :: post) :
    m.escaped = needsEscape (pre.getLast?.map Mark.sign)
      (leadingNumber s != 0 && leadingNumber s == pre.length) m.sign (post.map Mark.sign) := by
  have hnumber :
      ((if leadingNumber s == 0 then none else some (leadingNumber s)) == some pre.length) =
      (leadingNumber s != 0 && leadingNumber s == pre.length) := by
    by_cases hzero : leadingNumber s = 0 <;> simp [hzero]
  rw [escaped_marksFrom h, Option.or_none, hnumber]

theorem escaped_of_isAlwaysEscaped (h : marks s = pre ++ m :: post) (hm : isAlwaysEscaped m.sign) :
    m.escaped := by
  rw [escaped_marks h, needsEscape, if_pos hm]

/-- What is known of a sign that is left as it is: it is no sign of markup, begins no reference, is
no marker of a block, and stands within a word if it is an underscore. -/
structure IsLeft (s : Chars) (pre post : List Mark) (c : Char) : Prop where
  sign : isAlwaysEscaped c = false
  reference : c = '&' → Text.referenceBody? (post.map Mark.sign) = none
  marker : pre = [] → isBlockMarker c = false
  point : c = '.' ∨ c = ')' → leadingNumber s ≠ 0 → leadingNumber s = pre.length →
    endsMarker (post.map Mark.sign) = false
  underscore : c = '_' → isAlphanumeric? (pre.getLast?.map Mark.sign) ∧
    isAlphanumeric? (post.head?.map Mark.sign)

theorem isLeft_of_plain (h : marks s = pre ++ m :: post) (plain : m.escaped = false) :
    IsLeft s pre post m.sign := by
  rw [escaped_marks h, needsEscape] at plain
  split at plain
  · cases plain
  rename_i hsign
  split at plain
  · cases plain
  rename_i hreference
  split at plain
  · cases plain
  rename_i hmarker
  split at plain
  · cases plain
  rename_i hpoint
  exact {
    sign := by simpa using hsign
    reference := by simpa using hreference
    marker := by simpa using hmarker
    point := by simpa [or_imp] using hpoint
    underscore := by
      intro hunderscore
      simpa [hunderscore, List.head?_map] using plain }

theorem take_leadingNumber (s : Chars) :
    s.take (leadingNumber s) = (s.take 9).takeWhile Text.isDecimalDigit :=
  (List.prefix_iff_eq_take.mp ((List.takeWhile_prefix _).trans (List.take_prefix 9 s))).symm

/-- The digits of the number that a text begins with. -/
theorem isDecimalDigit_of_leadingNumber (h : marks s = pre ++ post)
    (hlength : leadingNumber s = pre.length) : ∀ p ∈ pre, Text.isDecimalDigit p.sign := by
  have hpre : pre.map Mark.sign = (s.take 9).takeWhile Text.isDecimalDigit := by
    rw [← take_leadingNumber, hlength, ← map_sign_marks s, h, List.map_append,
      ← List.length_map Mark.sign, List.take_left]
  intro p hp
  have hmem : p.sign ∈ (s.take 9).takeWhile Text.isDecimalDigit := by
    rw [← hpre]
    exact List.mem_map_of_mem hp
  exact List.mem_takeWhile_imp hmem

/-- What is escaped is a sign of markup, an underscore or the beginning of a reference, or it stands
at the start or after a number there. -/
theorem escaped_cases (h : marks s = pre ++ m :: post) (escaped : m.escaped) :
    isAlwaysEscaped m.sign ∨ m.sign = '&' ∨ m.sign = '_' ∨
      (∀ p ∈ pre, Text.isDecimalDigit p.sign) ∧
      (isBlockMarker m.sign ∨ m.sign = '.' ∨ m.sign = ')') := by
  rw [escaped_marks h, needsEscape] at escaped
  split at escaped
  · exact .inl ‹_›
  split at escaped
  · simp_all
  split at escaped
  · simp_all
  split at escaped
  · rename_i hpoint
    simp only [Bool.and_eq_true, Bool.or_eq_true, beq_iff_eq] at hpoint
    obtain ⟨⟨hsign, _, hlength⟩, _⟩ := hpoint
    exact .inr (.inr (.inr ⟨isDecimalDigit_of_leadingNumber h hlength, .inr hsign⟩))
  · simp_all

theorem isPunctuation_of_escaped (h : marks s = pre ++ m :: post) (escaped : m.escaped) :
    isPunctuation m.sign := by
  have halways : ∀ c, isAlwaysEscaped c → isPunctuation c := by
    intro c hc
    simp only [isAlwaysEscaped, Bool.or_eq_true, beq_iff_eq] at hc
    obtain (((((((rfl | rfl) | rfl) | rfl) | rfl) | rfl) | rfl) | rfl) := hc <;> decide
  have hmarker : ∀ c, isBlockMarker c → isPunctuation c := by
    intro c hc
    simp only [isBlockMarker, Bool.or_eq_true, beq_iff_eq] at hc
    obtain ((((rfl | rfl) | rfl) | rfl) | rfl) := hc <;> decide
  obtain hsign | hsign | hsign | ⟨_, hsign | hsign | hsign⟩ := escaped_cases h escaped
  · exact halways _ hsign
  · rw [hsign]; decide
  · rw [hsign]; decide
  · exact hmarker _ hsign
  · rw [hsign]; decide
  · rw [hsign]; decide

theorem flatMap_text_of_plain {ms : List Mark} (h : ∀ m ∈ ms, m.escaped = false) :
    ms.flatMap Mark.text = ms.map Mark.sign := by
  induction ms with
  | nil => rfl
  | cons m ms ih =>
    obtain ⟨hm, hms⟩ := List.forall_mem_cons.mp h
    rw [List.flatMap_cons, ih hms, Mark.text, hm]
    rfl

theorem mem_flatMap_text {ms : List Mark} {c : Char} (h : c ∈ ms.flatMap Mark.text) :
    c = '\\' ∨ c ∈ ms.map Mark.sign := by
  obtain ⟨m, hm, hc⟩ := List.mem_flatMap.mp h
  have hsign : m.sign ∈ ms.map Mark.sign := List.mem_map_of_mem hm
  rw [Mark.text] at hc
  split at hc
  · obtain rfl | hc := List.mem_cons.mp hc
    · exact .inl rfl
    · exact .inr (List.mem_singleton.mp hc ▸ hsign)
  · exact .inr (List.mem_singleton.mp hc ▸ hsign)

theorem getLast?_flatMap_text (ms : List Mark) :
    (ms.flatMap Mark.text).getLast? = (ms.map Mark.sign).getLast? := by
  obtain rfl | ⟨pre, m, rfl⟩ := ms.eq_nil_or_concat'
  · rfl
  · have htext : m.text.getLast? = some m.sign := by
      rw [Mark.text]
      split <;> rfl
    have hsome : m.text ≠ [] := by
      intro hnil
      rw [hnil] at htext
      cases htext
    rw [List.flatMap_append, List.flatMap_singleton, List.getLast?_append_of_ne_nil _ hsome, htext,
      List.map_append, List.map_singleton, List.getLast?_concat]

/-- Signs without white space at their ends are written without it. -/
theorem bounded_flatMap_text {ms : List Mark} (h : Text.Bounded Text.isBlank (ms.map Mark.sign)) :
    Text.Bounded Text.isBlank (ms.flatMap Mark.text) := by
  obtain ⟨⟨c, hc, hblank⟩, hlast⟩ := h
  obtain _ | ⟨m, ms⟩ := ms
  · cases hc
  obtain rfl : m.sign = c := Option.some.inj hc
  refine ⟨?_, by rwa [getLast?_flatMap_text]⟩
  rw [List.flatMap_cons, Mark.text]
  split
  · exact ⟨'\\', rfl, rfl⟩
  · exact ⟨m.sign, rfl, hblank⟩

/-- The run of signs at the start of what is written, none of which is escaped. -/
theorem exists_run {p : Char → Bool} (hp : p '\\' = false) (ms : List Mark) :
    ∃ run rest, ms = run ++ rest ∧ (∀ m ∈ run, m.escaped = false) ∧ (∀ c ∈ run.map Mark.sign, p c) ∧
      (ms.flatMap Mark.text).takeWhile p = run.map Mark.sign ∧
      (ms.flatMap Mark.text).drop run.length = rest.flatMap Mark.text := by
  induction ms with
  | nil => exact ⟨[], [], rfl, by simp, nofun, rfl, rfl⟩
  | cons m ms ih =>
    obtain ⟨run, rest, hms, hplain, hsigns, htake, hdrop⟩ := ih
    obtain ⟨c, escaped⟩ := m
    cases escaped with
    | true => exact ⟨[], _, rfl, by simp, nofun, List.takeWhile_cons_of_neg (by simp [hp]), rfl⟩
    | false =>
      have htext : Mark.text ⟨c, false⟩ = [c] := rfl
      rw [List.flatMap_cons, htext, List.singleton_append]
      cases hc : p c with
      | true =>
        refine ⟨⟨c, false⟩ :: run, rest, by rw [hms]; rfl, List.forall_mem_cons.mpr ⟨rfl, hplain⟩,
          List.forall_mem_cons.mpr ⟨hc, hsigns⟩, ?_, hdrop⟩
        rw [List.takeWhile_cons_of_pos hc, htake]
        rfl
      | false =>
        exact ⟨[], _, rfl, by simp, by simp, List.takeWhile_cons_of_neg (by simp [hc]), rfl⟩

theorem marker?_of_head {c : Char} {cs : Chars} (other : c ≠ '-' ∧ c ≠ '+' ∧ c ≠ '*')
    (digit : c.isDigit = false) : Start.marker? (c :: cs) = none := by
  simp [Start.marker?, other, digit]

theorem leadingNumber_of_digits {digits : Chars} (few : digits.length ≤ 9)
    (dec : ∀ d ∈ digits, d.isDigit) {c : Char} (other : Text.isDecimalDigit c = false)
    (cs : Chars) : leadingNumber (digits ++ c :: cs) = digits.length := by
  have hdigits : ∀ d ∈ digits, Text.isDecimalDigit d := by
    intro d hd
    simp [Text.isDecimalDigit, Text.digitValue?, dec d hd]
  have hrest : ((c :: cs).take (9 - digits.length)).takeWhile Text.isDecimalDigit = [] := by
    cases 9 - digits.length with
    | zero => rfl
    | succ n => rw [List.take_succ_cons, List.takeWhile_cons_of_neg (by simp [other])]
  rw [leadingNumber, List.take_append, List.take_of_length_le few,
    List.takeWhile_append_of_pos hdigits, hrest, List.append_nil]

/-- What is written begins with a backslash, or with a sign that no block begins with. -/
theorem exists_escape_cons (c : Char) (cs : Chars) :
    ∃ d ds, escape (c :: cs) = d :: ds ∧ (d = '\\' ∨ d = c) ∧
      ∀ sign ∈ ['#', '>', '<', '*', '-', '_', '+', '\x60', '['], d ≠ sign := by
  obtain ⟨m, ms, hms⟩ : ∃ m ms, marks (c :: cs) = m :: ms := ⟨_, _, rfl⟩
  have hsign : m.sign = c := by
    have h := map_sign_marks (c :: cs)
    rw [hms] at h
    exact (List.cons.inj h).1
  rw [escape_eq, hms, List.flatMap_cons, Mark.text]
  cases hescaped : m.escaped with
  | true => exact ⟨'\\', _, rfl, .inl rfl, by simp⟩
  | false =>
    have hleft : IsLeft (c :: cs) [] ms m.sign := isLeft_of_plain hms hescaped
    refine ⟨m.sign, _, rfl, .inr hsign, fun sign hmem heq => ?_⟩
    have hmarker := hleft.marker rfl
    have halways := hleft.sign
    have hunderscore := hleft.underscore
    rw [heq] at hmarker halways hunderscore
    have hcases : ∀ sign ∈ ['#', '>', '<', '*', '-', '_', '+', '\x60', '['],
        isBlockMarker sign ∨ isAlwaysEscaped sign ∨ sign = '_' := by
      simp [isBlockMarker, isAlwaysEscaped]
    obtain h | h | rfl := hcases sign hmem
    · rw [h] at hmarker
      cases hmarker
    · rw [h] at halways
      cases halways
    · cases (hunderscore rfl).1

/-- A marker begins no item where something other than white space follows it. -/
theorem item?_of_gapless {c : Char} {cs : Chars} (space : isSpace c = false) (h : ∀ m n,
    Start.marker? (c :: cs) = some (m, n) → ∃ d ds, (c :: cs).drop n = d :: ds ∧ isSpace d = false)
    (column : Nat) : Start.item? ⟨column, c :: cs⟩ = none := by
  rw [Start.item?, atContent_of_head space]
  cases hmarker : Start.marker? (c :: cs) with
  | none => rfl
  | some p =>
    obtain ⟨d, ds, hdrop, hd⟩ := h p.1 p.2 hmarker
    simp only [Option.bind_some, Line.after, hdrop, isBlank_of_head hd, indent_of_head hd]
    rfl

/-- A point or a parenthesis after the number at the start is escaped where white space follows
it. -/
theorem gapless_of_number {run rest : List Mark} (hms : marks s = run ++ rest)
    (some : run ≠ []) (few : run.length ≤ 9) (digits : ∀ c ∈ run.map Mark.sign, c.isDigit)
    {sign : Char} {tail : Chars} (htext : rest.flatMap Mark.text = sign :: tail)
    (hsign : sign = '.' ∨ sign = ')') : ∃ d ds, tail = d :: ds ∧ isSpace d = false := by
  obtain _ | ⟨p, post⟩ := rest
  · cases htext
  rw [List.flatMap_cons, Mark.text] at htext
  cases hescaped : p.escaped with
  | true =>
    rw [hescaped] at htext
    obtain rfl := (List.cons.inj htext).1
    simp at hsign
  | false =>
    rw [hescaped] at htext
    obtain ⟨rfl, rfl⟩ := List.cons.inj htext
    have hother : Text.isDecimalDigit p.sign = false := by
      obtain h | h := hsign <;> rw [h] <;> decide
    have hs : s = run.map Mark.sign ++ p.sign :: post.map Mark.sign := by
      rw [← map_sign_marks s, hms, List.map_append, List.map_cons]
    have hnumber : leadingNumber s = run.length := by
      rw [hs, leadingNumber_of_digits (by simpa using few) digits hother, List.length_map]
    have hends := (isLeft_of_plain hms hescaped).point hsign (by simpa [hnumber] using some) hnumber
    obtain _ | ⟨q, post⟩ := post
    · cases hends
    · have hspace : isSpace q.sign = false := hends
      rw [List.flatMap_cons, Mark.text]
      cases q.escaped with
      | true => exact ⟨'\\', _, rfl, rfl⟩
      | false => exact ⟨q.sign, _, rfl, hspace⟩

/-- No number at the start is followed by a sign and white space. -/
theorem gapless_marker {c : Char} {cs : Chars} {m : Marker} {n : Nat}
    (h : Start.marker? (escape (c :: cs)) = some (m, n)) :
    ∃ d ds, (escape (c :: cs)).drop n = d :: ds ∧ isSpace d = false := by
  obtain ⟨d, ds, hcons, _, hother⟩ := exists_escape_cons c cs
  obtain ⟨run, rest, hms, _, hdigits, htake, hdrop⟩ :=
    exists_run (p := Char.isDigit) rfl (marks (c :: cs))
  have hbullet : (d == '-' || d == '+' || d == '*') = false := by simp [hother]
  rw [← escape_eq] at htake hdrop
  rw [hcons] at h htake hdrop ⊢
  rw [Start.marker?, hbullet] at h
  simp only [Bool.false_eq_true, if_false, htake, List.length_map, hdrop] at h
  split at h
  · cases h
  rename_i hmany
  obtain ⟨some, few⟩ : run ≠ [] ∧ run.length ≤ 9 := by simpa using hmany
  have hafter : ∀ {sign tail}, rest.flatMap Mark.text = sign :: tail → sign = '.' ∨ sign = ')' →
      ∃ e es, (d :: ds).drop (run.length + 1) = e :: es ∧ isSpace e = false := by
    intro sign tail htext hsign
    have htail : (d :: ds).drop (run.length + 1) = tail := by
      rw [← List.drop_drop, hdrop, htext]
      rfl
    rw [htail]
    exact gapless_of_number hms some few hdigits htext hsign
  split at h
  · rename_i htext
    cases h
    exact hafter htext (.inl rfl)
  · rename_i htext
    cases h
    exact hafter htext (.inr rfl)
  · cases h

/-- No item begins with what is written for a text. -/
theorem item?_escape {c : Char} {cs : Chars} (space : isSpace c = false) (column : Nat) :
    Start.item? ⟨column, escape (c :: cs)⟩ = none := by
  have hgapless : ∀ m n, Start.marker? (escape (c :: cs)) = some (m, n) →
      ∃ d ds, (escape (c :: cs)).drop n = d :: ds ∧ isSpace d = false := fun _ _ => gapless_marker
  obtain ⟨d, ds, hcons, hd, _⟩ := exists_escape_cons c cs
  have hspace : isSpace d = false := by
    obtain rfl | rfl := hd
    · rfl
    · exact space
  rw [hcons] at hgapless ⊢
  exact item?_of_gapless hspace hgapless column

theorem fence?_escape (unfenced : ¬ ['~', '~', '~'] <+: s) : Start.fence? 0 (escape s) = none := by
  cases s with
  | nil => rfl
  | cons c cs =>
    obtain ⟨d, ds, hcons, _, hother⟩ := exists_escape_cons c cs
    by_cases htilde : d = '~'
    · obtain ⟨run, rest, hms, hplain, hsigns, htake, _⟩ :=
        exists_run (p := (· == '~')) rfl (marks (c :: cs))
      have hrun : (c :: cs) = run.map Mark.sign ++ rest.map Mark.sign := by
        rw [← List.map_append, ← hms, map_sign_marks]
      have hall : run.map Mark.sign = List.replicate run.length '~' := by
        rw [← List.length_map Mark.sign, List.eq_replicate_length]
        simpa using hsigns
      have hshort : run.length < 3 := by
        refine Nat.not_le.mp fun hlong => unfenced ?_
        obtain ⟨n, hn⟩ := Nat.exists_eq_add_of_le hlong
        rw [hrun, hall, hn, List.replicate_add, List.append_assoc]
        exact List.prefix_append _ _
      rw [← escape_eq, hcons] at htake
      subst htilde
      rw [hcons, Start.fence?]
      simp only [htake, List.length_map]
      rw [if_pos hshort]
    · rw [hcons]
      exact fence?_of_head ⟨htilde, hother '\x60' (by decide)⟩ 0

/-- The line that is written for a text begins no block, unless the text begins with a fence. -/
theorem find?_escape {c : Char} {cs : Chars} (space : isSpace c = false)
    (unfenced : ¬ ['~', '~', '~'] <+: c :: cs) (context : Context) (nests : Bool) (column : Nat) :
    Start.find? context nests ⟨column, escape (c :: cs)⟩ = none := by
  have hitem : Start.item? ⟨column, escape (c :: cs)⟩ = none := item?_escape space column
  have hfence := fence?_escape unfenced
  obtain ⟨d, ds, hcons, hd, hother⟩ := exists_escape_cons c cs
  have hspace : isSpace d = false := by
    obtain rfl | rfl := hd
    · rfl
    · exact space
  rw [hcons] at hitem hfence ⊢
  refine find?_of_head hspace (fun sign hsign => hother sign ?_) hfence hitem context nests
  simp only [List.mem_cons, List.not_mem_nil, or_false] at hsign ⊢
  tauto

end Canonmark.Markdown
