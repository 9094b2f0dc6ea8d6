import Canonmark.Json.Value
import Canonmark.Text.Blank
import Canonmark.Text.CharacterReference

/-! Values read from JSON text. Besides the standard grammar the numbers NaN, Infinity and -Infinity
are known, and of two members of one name the later value counts. -/
namespace Canonmark.Json

def isSpace (c : Char) : Bool := c == ' ' || c == '\t' || c == '\n' || c == '\r'

def skipSpace (s : Chars) : Chars := s.dropWhile isSpace

/-- The body of a string and the text after its closing quote; escapes of surrogates are kept as
their numbers. -/
def stringNumbers? : Chars → Option (List Nat × Chars)
  | [] => none
  | '"' :: rest => some ([], rest)
  | '\\' :: 'u' :: a :: b :: c :: d :: rest =>
    if Text.isHexDigit a && Text.isHexDigit b && Text.isHexDigit c && Text.isHexDigit d then
      (stringNumbers? rest).map fun (ns, r) => (Text.hexadecimalValue [a, b, c, d] :: ns, r)
    else none
  | '\\' :: c :: rest =>
    let plain? : Option Nat := match c with
      | '"' => some 0x22
      | '\\' => some 0x5C
      | '/' => some 0x2F
      | 'b' => some 0x08
      | 'f' => some 0x0C
      | 'n' => some 0x0A
      | 'r' => some 0x0D
      | 't' => some 0x09
      | _ => none
    match plain? with
    | some n => (stringNumbers? rest).map fun (ns, r) => (n :: ns, r)
    | none => none
  | c :: rest =>
    if c.toNat < 0x20 || c == '\\' then none
    else (stringNumbers? rest).map fun (ns, r) => (c.toNat :: ns, r)

/-- Joins surrogate pairs; a surrogate without its partner is replaced. -/
def joinSurrogates : List Nat → Chars
  | [] => []
  | n :: ns =>
    if 0xD800 ≤ n && n ≤ 0xDBFF then
      match ns with
      | m :: ms =>
        if 0xDC00 ≤ m && m ≤ 0xDFFF then
          Char.ofNat (0x10000 + (n - 0xD800) * 0x400 + (m - 0xDC00)) :: joinSurrogates ms
        else '\uFFFD' :: joinSurrogates (m :: ms)
      | [] => ['\uFFFD']
    else if 0xDC00 ≤ n && n ≤ 0xDFFF then '\uFFFD' :: joinSurrogates ns
    else Char.ofNat n :: joinSurrogates ns

def readString? (s : Chars) : Option (String × Chars) :=
  (stringNumbers? s).map fun (ns, rest) => (String.ofList (joinSurrogates ns), rest)

def fraction (s : Chars) : Chars × Chars :=
  match s with
  | '.' :: rest =>
    let digits := rest.takeWhile Char.isDigit
    if digits.isEmpty then ([], s) else (digits, rest.drop digits.length)
  | _ => ([], s)

def exponent? (s : Chars) : Option Int × Chars :=
  match s with
  | c :: rest =>
    if c == 'e' || c == 'E' then
      let (negative, rest') := match rest with
        | '-' :: r => (true, r)
        | '+' :: r => (false, r)
        | r => (false, r)
      let digits := rest'.takeWhile Char.isDigit
      if digits.isEmpty then (none, s)
      else
        let n : Int := Text.decimalValue digits
        (some (if negative then -n else n), rest'.drop digits.length)
    else (none, s)
  | [] => (none, s)

/-- A number without its sign. A fraction or an exponent makes it a floating-point one. -/
def readNumber? (negative : Bool) (s : Chars) : Option (Json × Chars) :=
  let whole := match s with
    | '0' :: _ => ['0']
    | _ => s.takeWhile Char.isDigit
  if whole.isEmpty then none
  else
    let (frac, rest) := fraction (s.drop whole.length)
    let (exp, rest) := exponent? rest
    if frac.isEmpty && exp.isNone then
      let n : Int := Text.decimalValue whole
      some (.int (if negative then -n else n), rest)
    else
      let power := exp.getD 0 - frac.length
      some (.float (.ofDecimal negative (Text.decimalValue (whole ++ frac)) power), rest)

def readScalar? (s : Chars) : Option (Json × Chars) :=
  match s with
  | 'n' :: 'u' :: 'l' :: 'l' :: rest => some (.null, rest)
  | 't' :: 'r' :: 'u' :: 'e' :: rest => some (.bool true, rest)
  | 'f' :: 'a' :: 'l' :: 's' :: 'e' :: rest => some (.bool false, rest)
  | 'N' :: 'a' :: 'N' :: rest => some (.float .notANumber, rest)
  | 'I' :: 'n' :: 'f' :: 'i' :: 'n' :: 'i' :: 't' :: 'y' :: rest =>
    some (.float (.infinite false), rest)
  | '-' :: 'I' :: 'n' :: 'f' :: 'i' :: 'n' :: 'i' :: 't' :: 'y' :: rest =>
    some (.float (.infinite true), rest)
  | '-' :: rest => readNumber? true rest
  | _ => readNumber? false s

mutual

/-- A value at the start of a text. Every step into a list or object, or along it, takes one from
the fuel, and the length of the text is enough. -/
def readValue? : (fuel : Nat) → Chars → Option (Json × Chars)
  | 0, _ => none
  | fuel + 1, s =>
    match s with
    | '"' :: rest => (readString? rest).map fun (t, r) => (.str t, r)
    | '[' :: rest =>
      match skipSpace rest with
      | ']' :: r => some (.arr [], r)
      | r => (readItems? fuel r).map fun (vs, r) => (.arr vs, r)
    | '\x7b' :: rest =>
      match skipSpace rest with
      | '\x7d' :: r => some (.obj [], r)
      | r => (readMembers? fuel r).map fun (ms, r) => (.obj (Members.ofList ms), r)
    | _ => readScalar? s

def readItems? : (fuel : Nat) → Chars → Option (List Json × Chars)
  | 0, _ => none
  | fuel + 1, s => do
    let (v, rest) ← readValue? fuel s
    match skipSpace rest with
    | ']' :: r => some ([v], r)
    | ',' :: r =>
      let (vs, r) ← readItems? fuel (skipSpace r)
      some (v :: vs, r)
    | _ => none

def readMembers? : (fuel : Nat) → Chars → Option (List (String × Json) × Chars)
  | 0, _ => none
  | fuel + 1, s =>
    match s with
    | '"' :: rest => do
      let (n, rest) ← readString? rest
      match skipSpace rest with
      | ':' :: rest =>
        let (v, rest) ← readValue? fuel (skipSpace rest)
        match skipSpace rest with
        | '\x7d' :: r => some ([(n, v)], r)
        | ',' :: r =>
          let (ms, r) ← readMembers? fuel (skipSpace r)
          some ((n, v) :: ms, r)
        | _ => none
      | _ => none
    | _ => none

end

def ofText? (text : String) : Option Json :=
  let s := text.toList
  match readValue? (s.length + 1) (skipSpace s) with
  | some (v, rest) => if (skipSpace rest).isEmpty then some v else none
  | none => none

end Canonmark.Json
