import Canonmark.Text.CharacterReference
import Canonmark.Text.LetterCase

/-! Start tags of HTML, read with tolerance. -/
namespace Canonmark.Html

/-- An attribute as it is written; no value if there is no equals sign. -/
structure RawAttribute where
  name : Chars
  value : Option Chars

def isAsciiLetter (c : Char) : Bool := c.isAlpha

def endsTagName (c : Char) : Bool :=
  c == '\t' || c == '\n' || c == '\r' || c == '\x0c' || c == ' ' || c == '/' ||
    c == '>' || c == '\x00'

/-- Skips white space and slashes other than one before `>`. -/
def skipFiller : Chars → Chars
  | [] => []
  | '/' :: '>' :: rest => '/' :: '>' :: rest
  | c :: cs => if Text.isBlank c || c == '/' then skipFiller cs else c :: cs

def quotedValue? (quote : Char) (s : Chars) : Option (Chars × Chars) :=
  let value := s.takeWhile (· != quote)
  match s.drop value.length with
  | [] => none
  | _ :: rest => some (value, rest)

def bareValue (s : Chars) : Chars × Chars :=
  let value := s.takeWhile fun c => !(c == '>' || Text.isBlank c)
  (value, s.drop value.length)

/-- The value after the name of an attribute. Where a quote is never closed, the white space before
it or else all equals signs but the first end the name, and what follows is another matter. -/
def attributeValue? (s : Chars) : Option (Chars × Chars) :=
  let signs := s.dropWhile Text.isBlank
  let after := signs.dropWhile (· == '=')
  let count := signs.length - after.length
  if count == 0 then none
  else
    let value := after.dropWhile Text.isBlank
    let quoted? := match value with
      | '\'' :: rest => some (quotedValue? '\'' rest)
      | '"' :: rest => some (quotedValue? '"' rest)
      | _ => none
    match quoted? with
    | none => some (bareValue value)
    | some (some v) => some v
    | some none =>
      let spaces := after.length - value.length
      if 0 < spaces then some ([], after.drop (spaces - 1))
      else if 1 < count then some (bareValue ('=' :: after))
      else none

def separatesNames (c : Char) : Bool := c == '\'' || c == '"' || c == '/' || Text.isBlank c

/-- The last character of `s` before its end `rest`. -/
def lastBefore (before : Char) (s rest : Chars) : Char :=
  ((s.take (s.length - rest.length)).getLast?).getD before

/-- An attribute at the start of a text that follows the character `before`; the text after it and
its filler. -/
def attribute? (before : Char) (s : Chars) : Option (RawAttribute × Chars) :=
  match s with
  | [] => none
  | c :: cs =>
    if !separatesNames before || Text.isBlank c || c == '/' || c == '>' then none
    else
      let tail := cs.takeWhile fun d => !(Text.isBlank d || d == '/' || d == '=' || d == '>')
      let rest := cs.drop tail.length
      match attributeValue? rest with
      | some (value, rest) => some (⟨c :: tail, some value⟩, skipFiller rest)
      | none => some (⟨c :: tail, none⟩, skipFiller rest)

def attributes : (fuel : Nat) → (before : Char) → Chars → List RawAttribute × Chars
  | 0, _, s => ([], s)
  | fuel + 1, before, s =>
    match attribute? before s with
    | none => ([], s)
    | some (a, rest) =>
      let (as, rest') := attributes fuel (lastBefore before s rest) rest
      (a :: as, rest')

inductive StartTag where
  | element (name : Chars) (attributes : List RawAttribute) (closed : Bool) (rest : Chars)
  | text (text rest : Chars)
  | unfinished
  /-- A number in the value of an attribute is too long to be read. -/
  | longNumber

/-- Where a start tag ends, its attributes being passed over. -/
private def endOfTag? (name s : Chars) : Option (Option Chars) :=
  let spaced := s.dropWhile fun c => Text.isBlank c || c == '/'
  let before := lastBefore (name.getLast?.getD '<') s spaced
  let (_, rest) := attributes spaced.length before spaced
  match rest.dropWhile Text.isBlank with
  | [] => none
  | '>' :: rest => some (some rest)
  | '/' :: '>' :: rest => some (some rest)
  | c :: cs =>
    if c == '/' || c == '=' || isAsciiLetter c then none else some (some (c :: cs))

def startTag (s : Chars) : StartTag :=
  let name := s.takeWhile (!endsTagName ·)
  let body := s.drop name.length
  match endOfTag? name body with
  | none | some none => .unfinished
  | some (some rest) =>
    let filled := skipFiller body
    let before := lastBefore (name.getLast?.getD '<') body filled
    let (as, after) := attributes filled.length before filled
    let stop := Text.trim (after.take (after.length - rest.length))
    if as.any fun a => Text.holdsLongReference (a.value.getD []) then .longNumber
    else if stop == ['>'] then .element (Text.toLower name) as false rest
    else if stop == ['/', '>'] then .element (Text.toLower name) as true rest
    else .text ('<' :: s.take (s.length - rest.length)) rest

def RawAttribute.text (a : RawAttribute) : Chars := Text.decodeLooseReferences (a.value.getD [])

end Canonmark.Html
