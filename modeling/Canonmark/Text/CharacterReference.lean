import Canonmark.Text.CharacterName
import Canonmark.Text.Numeral

/-! Character references: `&` with a name or a number, standing for a character. -/
namespace Canonmark.Text

/-- What the numbers 0x80 to 0x9F stand for: the characters of windows-1252 at these places. -/
def windowsCharacters : List Nat := [
  0x20AC, 0x81, 0x201A, 0x192, 0x201E, 0x2026, 0x2020, 0x2021, 0x2C6, 0x2030, 0x160, 0x2039, 0x152,
  0x8D, 0x17D, 0x8F, 0x90, 0x2018, 0x2019, 0x201C, 0x201D, 0x2022, 0x2013, 0x2014, 0x2DC, 0x2122,
  0x161, 0x203A, 0x153, 0x9D, 0x17E, 0x178]

/-- Controls and noncharacters, which a number cannot stand for. -/
def isForbiddenNumber (n : Nat) : Bool :=
  (0x1 ≤ n && n ≤ 0x8) || n == 0xB || (0xE ≤ n && n ≤ 0x1F) || (0x7F ≤ n && n ≤ 0x9F) ||
    (0xFDD0 ≤ n && n ≤ 0xFDEF) || n % 0x10000 == 0xFFFE || n % 0x10000 == 0xFFFF

def numberedCharacter (n : Nat) : Chars :=
  if n == 0 then ['\uFFFD']
  else if n == 0xD then ['\r']
  else if 0x80 ≤ n && n ≤ 0x9F then [Char.ofNat (windowsCharacters.getD (n - 0x80) 0xFFFD)]
  else if (0xD800 ≤ n && n ≤ 0xDFFF) || 0x10FFFF < n then ['\uFFFD']
  else if isForbiddenNumber n then []
  else [Char.ofNat n]

def hexDigitValue? (c : Char) : Option Nat :=
  if c.isDigit then some (c.toNat - 0x30)
  else if 'a' ≤ c && c ≤ 'f' then some (c.toNat - 0x57)
  else if 'A' ≤ c && c ≤ 'F' then some (c.toNat - 0x37)
  else none

def isHexDigit (c : Char) : Bool := (hexDigitValue? c).isSome

def decimalValue (s : Chars) : Nat :=
  s.foldl (fun n c => 10 * n + (c.toNat - 0x30)) 0

def hexadecimalValue (s : Chars) : Nat :=
  s.foldl (fun n c => 16 * n + (hexDigitValue? c).getD 0) 0

/-- The longest known name that `name` starts with, at least two characters long, followed by the
rest of `name`. -/
def longestName? (name : Chars) : Option Chars :=
  (List.range name.length).reverse.findSome? fun n =>
    if n < 2 then none
    else (namedCharacter? (name.take n)).map (· ++ name.drop n)

def nameText (name : Chars) : Chars :=
  match namedCharacter? name with
  | some cs => cs
  | none => (longestName? name).getD ('&' :: name)

def endsName (c : Char) : Bool :=
  c == '\t' || c == '\n' || c == '\x0c' || c == ' ' || c == '<' || c == '&' || c == '#' || c == ';'

def referenceBody? (s : Chars) : Option Chars :=
  match s with
  | '#' :: 'x' :: rest | '#' :: 'X' :: rest =>
    let digits := rest.takeWhile isHexDigit
    if !digits.isEmpty && (rest.drop digits.length).head? == some ';' then
      some (s.take (digits.length + 3))
    else none
  | '#' :: rest =>
    let digits := rest.takeWhile Char.isDigit
    if 1 ≤ digits.length && digits.length ≤ 7 && (rest.drop digits.length).head? == some ';' then
      some (s.take (digits.length + 2))
    else none
  | _ =>
    let name := s.takeWhile (!endsName ·)
    if 1 ≤ name.length && name.length ≤ 32 && (s.drop name.length).head? == some ';' then
      some (s.take (name.length + 1))
    else none

/-- The longest body at the start of a text where the semicolon may be missing. -/
def looseReferenceBody? (s : Chars) : Option Chars :=
  let closed (n : Nat) : Chars := s.take (if (s.drop n).head? == some ';' then n + 1 else n)
  match s with
  | '#' :: 'x' :: rest | '#' :: 'X' :: rest =>
    let digits := rest.takeWhile isHexDigit
    if digits.isEmpty then none else some (closed (digits.length + 2))
  | '#' :: rest =>
    let digits := rest.takeWhile Char.isDigit
    if digits.isEmpty then none else some (closed (digits.length + 1))
  | _ =>
    let name := (s.take 32).takeWhile (!endsName ·)
    if name.isEmpty then none else some (closed name.length)

def referenceText (body : Chars) : Chars :=
  match body with
  | '#' :: 'x' :: rest | '#' :: 'X' :: rest =>
    numberedCharacter (hexadecimalValue (rest.takeWhile isHexDigit))
  | '#' :: rest => numberedCharacter (decimalValue (rest.takeWhile Char.isDigit))
  | name => nameText name

/-- Replaces the references whose bodies `body?` finds; the first `skip` characters belong to one
already replaced. -/
def replaceReferences (body? : Chars → Option Chars) : (skip : Nat) → Chars → Chars
  | _, [] => []
  | skip + 1, _ :: cs => replaceReferences body? skip cs
  | 0, c :: cs =>
    if c == '&' then
      match body? cs with
      | some body => referenceText body ++ replaceReferences body? body.length cs
      | none => c :: replaceReferences body? 0 cs
    else c :: replaceReferences body? 0 cs

def decodeReferences (s : Chars) : Chars := replaceReferences referenceBody? 0 s

/-- Whether a decimal number in a reference has more digits than can be read. -/
def holdsLongReference : Chars → Bool
  | [] => false
  | '&' :: '#' :: cs =>
    Numeral.maxDigits < (cs.takeWhile Char.isDigit).length || holdsLongReference cs
  | _ :: cs => holdsLongReference cs

def decodeLooseReferences (s : Chars) : Chars := replaceReferences looseReferenceBody? 0 s

end Canonmark.Text
