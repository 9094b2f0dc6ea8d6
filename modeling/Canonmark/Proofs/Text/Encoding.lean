import Canonmark.Source
import Mathlib.Order.Basic

/-! UTF-8 is read back as the text that was written, and nothing else is read. -/
namespace Canonmark.Text.Encoding

variable {c : Char} {cs : Chars} {bs : Bytes} {a b d e : UInt8}

/-- A text in UTF-8. -/
def utf8 (cs : Chars) : Bytes := cs.flatMap String.utf8EncodeChar

theorem utf8_cons (c : Char) (cs : Chars) : utf8 (c :: cs) = String.utf8EncodeChar c ++ utf8 cs :=
  List.flatMap_cons

theorem utf8_toList (s : String) : utf8 s.toList = s.toUTF8.data.toList := by
  rw [String.toUTF8_eq_toByteArray, ← String.utf8Encode_toList, List.utf8Encode, utf8]
  simp

theorem toNat_cases (c : Char) : c.toNat < 0xD800 ∨ 0xDFFF < c.toNat ∧ c.toNat < 0x110000 := c.valid

theorem toNat_ofNat_char {n : Nat} (h : n.isValidChar) : (Char.ofNat n).toNat = n := by
  rw [Char.ofNat, dif_pos h]
  rfl

theorem scalar?_eq_some_iff {least n : Nat} :
    scalar? least n = some c ↔ least ≤ n ∧ c.toNat = n := by
  have hcases := toNat_cases c
  rw [scalar?]
  split
  case isTrue h =>
    simp only [Bool.or_eq_true, Bool.and_eq_true, decide_eq_true_eq] at h
    exact iff_of_false nofun (by omega)
  case isFalse h =>
    simp only [Bool.or_eq_true, Bool.and_eq_true, decide_eq_true_eq] at h
    have hvalid : n.isValidChar := by
      rw [Nat.isValidChar]
      omega
    rw [Option.some.injEq]
    constructor
    · rintro rfl
      exact ⟨by omega, toNat_ofNat_char hvalid⟩
    · rintro ⟨-, rfl⟩
      exact Char.ofNat_toNat c

theorem tail?_eq_some_iff {x : Nat} : tail? b = some x ↔ x < 0x40 ∧ b.toNat = x + 0x80 := by
  rw [tail?]
  split
  case isTrue h =>
    simp only [Bool.and_eq_true, decide_eq_true_eq] at h
    rw [Option.some.injEq]
    omega
  case isFalse h =>
    simp only [Bool.and_eq_true, decide_eq_true_eq] at h
    exact iff_of_false nofun (by omega)

theorem toNat_ofNat_byte {n : Nat} (h : n < 0x100) : (UInt8.ofNat n).toNat = n := by
  rw [UInt8.toNat_ofNat']
  omega

theorem ofNat_byte_eq {n : Nat} (h : n = b.toNat) : UInt8.ofNat n = b := by
  rw [h, UInt8.ofNat_toNat]

/-- The character of a leading byte and one that continues it. A character is one byte below
`0x80`, or a byte that leads and one, two or three that continue. -/
def two? (a b : UInt8) : Option Char := do
  let x ← tail? b
  scalar? 0x80 ((a.toNat - 0xC0) * 0x40 + x)

def three? (a b d : UInt8) : Option Char := do
  let x ← tail? b
  let y ← tail? d
  scalar? 0x800 (((a.toNat - 0xE0) * 0x40 + x) * 0x40 + y)

def four? (a b d e : UInt8) : Option Char := do
  let x ← tail? b
  let y ← tail? d
  let z ← tail? e
  scalar? 0x10000 ((((a.toNat - 0xF0) * 0x40 + x) * 0x40 + y) * 0x40 + z)

theorem encodeChar_of_one (ha : a.toNat < 0x80) :
    String.utf8EncodeChar (Char.ofNat a.toNat) = [a] := by
  have hvalid : a.toNat.isValidChar := .inl (by omega)
  rw [String.utf8EncodeChar.eq_1, Char.toNat_val, toNat_ofNat_char hvalid, if_pos (by omega),
    UInt8.ofNat_toNat]

theorem encodeChar_of_two (ha : 0xC0 ≤ a.toNat ∧ a.toNat < 0xE0) (h : two? a b = some c) :
    String.utf8EncodeChar c = [a, b] := by
  simp only [two?, Option.bind_eq_bind, Option.bind_eq_some_iff, tail?_eq_some_iff,
    scalar?_eq_some_iff] at h
  obtain ⟨x, ⟨hx, hb⟩, hleast, hc⟩ := h
  rw [String.utf8EncodeChar.eq_1, Char.toNat_val, if_neg (by omega), if_pos (by omega)]
  congr
  · exact ofNat_byte_eq (by omega)
  · exact ofNat_byte_eq (by omega)

theorem encodeChar_of_three (ha : 0xE0 ≤ a.toNat ∧ a.toNat < 0xF0) (h : three? a b d = some c) :
    String.utf8EncodeChar c = [a, b, d] := by
  simp only [three?, Option.bind_eq_bind, Option.bind_eq_some_iff, tail?_eq_some_iff,
    scalar?_eq_some_iff] at h
  obtain ⟨x, ⟨hx, hb⟩, y, ⟨hy, hd⟩, hleast, hc⟩ := h
  rw [String.utf8EncodeChar.eq_1, Char.toNat_val, if_neg (by omega), if_neg (by omega),
    if_pos (by omega)]
  congr
  · exact ofNat_byte_eq (by omega)
  · exact ofNat_byte_eq (by omega)
  · exact ofNat_byte_eq (by omega)

theorem encodeChar_of_four (ha : 0xF0 ≤ a.toNat ∧ a.toNat < 0xF8) (h : four? a b d e = some c) :
    String.utf8EncodeChar c = [a, b, d, e] := by
  simp only [four?, Option.bind_eq_bind, Option.bind_eq_some_iff, tail?_eq_some_iff,
    scalar?_eq_some_iff] at h
  obtain ⟨x, ⟨hx, hb⟩, y, ⟨hy, hd⟩, z, ⟨hz, he⟩, hleast, hc⟩ := h
  rw [String.utf8EncodeChar.eq_1, Char.toNat_val, if_neg (by omega), if_neg (by omega),
    if_neg (by omega)]
  congr
  · exact ofNat_byte_eq (by omega)
  · exact ofNat_byte_eq (by omega)
  · exact ofNat_byte_eq (by omega)
  · exact ofNat_byte_eq (by omega)

/-- The encodings that characters have. -/
theorem encodeChar_cases (c : Char) :
    (∃ a, a.toNat < 0x80 ∧ Char.ofNat a.toNat = c ∧ String.utf8EncodeChar c = [a]) ∨
      (∃ a b, (0xC0 ≤ a.toNat ∧ a.toNat < 0xE0) ∧ two? a b = some c ∧ String.utf8EncodeChar c =
        [a, b]) ∨ (∃ a b d, (0xE0 ≤ a.toNat ∧ a.toNat < 0xF0) ∧ three? a b d = some c ∧
        String.utf8EncodeChar c = [a, b, d]) ∨
      ∃ a b d e, (0xF0 ≤ a.toNat ∧ a.toNat < 0xF8) ∧ four? a b d e = some c ∧
        String.utf8EncodeChar c = [a, b, d, e] := by
  have hcases := toNat_cases c
  simp only [two?, three?, four?, Option.bind_eq_bind, Option.bind_eq_some_iff, tail?_eq_some_iff,
    scalar?_eq_some_iff]
  rw [String.utf8EncodeChar.eq_1, Char.toNat_val]
  split_ifs with hone htwo hthree
  · have ha := toNat_ofNat_byte (n := c.toNat) (by omega)
    exact .inl ⟨_, by omega, by rw [ha, Char.ofNat_toNat], rfl⟩
  · have ha := toNat_ofNat_byte (n := c.toNat / 64 % 32 + 192) (by omega)
    have hb := toNat_ofNat_byte (n := c.toNat % 64 + 128) (by omega)
    exact .inr (.inl ⟨_, _, by omega, ⟨c.toNat % 64, by omega, by omega⟩, rfl⟩)
  · have ha := toNat_ofNat_byte (n := c.toNat / 4096 % 16 + 224) (by omega)
    have hb := toNat_ofNat_byte (n := c.toNat / 64 % 64 + 128) (by omega)
    have hd := toNat_ofNat_byte (n := c.toNat % 64 + 128) (by omega)
    exact .inr (.inr (.inl ⟨_, _, _, by omega,
      ⟨c.toNat / 64 % 64, by omega, c.toNat % 64, by omega, by omega⟩, rfl⟩))
  · have ha := toNat_ofNat_byte (n := c.toNat / 262144 % 8 + 240) (by omega)
    have hb := toNat_ofNat_byte (n := c.toNat / 4096 % 64 + 128) (by omega)
    have hd := toNat_ofNat_byte (n := c.toNat / 64 % 64 + 128) (by omega)
    have he := toNat_ofNat_byte (n := c.toNat % 64 + 128) (by omega)
    exact .inr (.inr (.inr ⟨_, _, _, _, by omega, ⟨c.toNat / 4096 % 64, by omega, c.toNat / 64 % 64,
      by omega, c.toNat % 64, by omega, by omega⟩, rfl⟩))

theorem utf8?_one (ha : a.toNat < 0x80) (bs : Bytes) :
    utf8? (a :: bs) = (utf8? bs).map (Char.ofNat a.toNat :: ·) := by
  rw [utf8?.eq_def]
  simp [ha]

theorem utf8?_two (ha : 0xC0 ≤ a.toNat ∧ a.toNat < 0xE0) (bs : Bytes) :
    utf8? (a :: b :: bs) = (two? a b).bind fun c => (utf8? bs).map (c :: ·) := by
  rw [utf8?.eq_def]
  simp [two?, ha, show ¬ a.toNat < 0x80 by omega, Option.bind_assoc]

theorem utf8?_three (ha : 0xE0 ≤ a.toNat ∧ a.toNat < 0xF0) (bs : Bytes) :
    utf8? (a :: b :: d :: bs) = (three? a b d).bind fun c => (utf8? bs).map (c :: ·) := by
  rw [utf8?.eq_def]
  simp [three?, ha, show ¬ a.toNat < 0x80 by omega, show ¬ a.toNat < 0xE0 by omega,
    Option.bind_assoc]

theorem utf8?_four (ha : 0xF0 ≤ a.toNat ∧ a.toNat < 0xF8) (bs : Bytes) :
    utf8? (a :: b :: d :: e :: bs) = (four? a b d e).bind fun c => (utf8? bs).map (c :: ·) := by
  rw [utf8?.eq_def]
  simp [four?, ha, show ¬ a.toNat < 0x80 by omega, show ¬ a.toNat < 0xE0 by omega,
    show ¬ a.toNat < 0xF0 by omega, Option.bind_assoc]

theorem utf8?_encodeChar (c : Char) (bs : Bytes) :
    utf8? (String.utf8EncodeChar c ++ bs) = (utf8? bs).map (c :: ·) := by
  obtain ⟨a, ha, hc, henc⟩ | ⟨a, b, ha, hc, henc⟩ | ⟨a, b, d, ha, hc, henc⟩
      | ⟨a, b, d, e, ha, hc, henc⟩ :=
    encodeChar_cases c
  · rw [henc, List.singleton_append, utf8?_one ha, hc]
  · rw [henc, List.cons_append, List.singleton_append, utf8?_two ha, hc, Option.bind_some]
  · simp only [henc, List.cons_append, List.nil_append]
    rw [utf8?_three ha, hc, Option.bind_some]
  · simp only [henc, List.cons_append, List.nil_append]
    rw [utf8?_four ha, hc, Option.bind_some]

theorem utf8?_utf8 (cs : Chars) : utf8? (utf8 cs) = some cs := by
  induction cs with
  | nil => rw [utf8, List.flatMap_nil, utf8?]
  | cons c cs ih =>
    rw [utf8_cons, utf8?_encodeChar, ih, Option.map_some]

/-- What is read after a first character. -/
theorem cons_of_bind_map {o : Option Char} {rest : Option Chars}
    (h : (o.bind fun c => rest.map (c :: ·)) = some cs) :
    ∃ c tail, o = some c ∧ rest = some tail ∧ c :: tail = cs := by
  obtain ⟨c, hc, hmap⟩ := Option.bind_eq_some_iff.1 h
  obtain ⟨tail, htail, hcons⟩ := Option.map_eq_some_iff.1 hmap
  exact ⟨c, tail, hc, htail, hcons⟩

/-- What is read begins with a character. -/
theorem utf8?_cons_eq_some (h : utf8? (a :: bs) = some cs) :
    ∃ c rest tail,
      a :: bs = String.utf8EncodeChar c ++ rest ∧ utf8? rest = some tail ∧ cs = c :: tail := by
  by_cases hone : a.toNat < 0x80
  · rw [utf8?_one hone] at h
    obtain ⟨tail, htail, rfl⟩ := Option.map_eq_some_iff.1 h
    exact ⟨_, bs, tail, by rw [encodeChar_of_one hone]; rfl, htail, rfl⟩
  by_cases htwo : 0xC0 ≤ a.toNat ∧ a.toNat < 0xE0
  · match bs with
    | b :: rest =>
      rw [utf8?_two htwo] at h
      obtain ⟨c, tail, hc, htail, rfl⟩ := cons_of_bind_map h
      exact ⟨c, rest, tail, by rw [encodeChar_of_two htwo hc]; rfl, htail, rfl⟩
    | [] =>
      rw [utf8?.eq_def] at h
      simp [hone, htwo] at h
  by_cases hthree : 0xE0 ≤ a.toNat ∧ a.toNat < 0xF0
  · match bs with
    | b :: d :: rest =>
      rw [utf8?_three hthree] at h
      obtain ⟨c, tail, hc, htail, rfl⟩ := cons_of_bind_map h
      exact ⟨c, rest, tail, by rw [encodeChar_of_three hthree hc]; rfl, htail, rfl⟩
    | [] | [_] =>
      rw [utf8?.eq_def] at h
      simp [hone, htwo, hthree] at h
  by_cases hfour : 0xF0 ≤ a.toNat ∧ a.toNat < 0xF8
  · match bs with
    | b :: d :: e :: rest =>
      rw [utf8?_four hfour] at h
      obtain ⟨c, tail, hc, htail, rfl⟩ := cons_of_bind_map h
      exact ⟨c, rest, tail, by rw [encodeChar_of_four hfour hc]; rfl, htail, rfl⟩
    | [] | [_] | [_, _] =>
      rw [utf8?.eq_def] at h
      simp [hone, htwo, hthree, hfour] at h
  · rw [utf8?.eq_def] at h
    simp [hone, htwo, hthree, hfour] at h

/-- Only the one encoding of every character is read. -/
theorem eq_utf8_of_utf8?_eq_some (h : utf8? bs = some cs) : bs = utf8 cs := by
  induction hlength : bs.length using Nat.strongRecOn generalizing bs cs with
  | ind n ih =>
    cases bs with
    | nil =>
      rw [utf8?] at h
      cases h
      rfl
    | cons a bs =>
      obtain ⟨c, rest, tail, hbs, htail, rfl⟩ := utf8?_cons_eq_some h
      have hshorter : rest.length < n := by
        have hsize := String.length_utf8EncodeChar c
        have hpos := c.utf8Size_pos
        rw [← hlength, hbs, List.length_append]
        omega
      rw [hbs, utf8_cons, ← ih _ hshorter htail rfl]

theorem utf8?_eq_some_iff : utf8? bs = some cs ↔ bs = utf8 cs := by
  constructor
  · exact eq_utf8_of_utf8?_eq_some
  · rintro rfl
    exact utf8?_utf8 cs

end Canonmark.Text.Encoding
