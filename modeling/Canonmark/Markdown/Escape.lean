import Canonmark.Text.Alphanumeric
import Canonmark.Text.CharacterReference
import Canonmark.Text.DecimalDigit

/-! Escapes that keep plain text plain when it is read as markdown. -/
namespace Canonmark.Markdown

def isAlwaysEscaped (c : Char) : Bool :=
  c == '\\' || c == '\x60' || c == '*' || c == '\x7b' || c == '\x7d' || c == '[' ||
    c == ']' || c == '<'

def isBlockMarker (c : Char) : Bool := c == '#' || c == '-' || c == '+' || c == '>' || c == '='

def leadingNumber (s : Chars) : Nat := ((s.take 9).takeWhile Text.isDecimalDigit).length

def isAlphanumeric? : Option Char → Bool
  | some c => Text.isAlphanumeric c
  | none => false

def endsMarker : Chars → Bool
  | [] => true
  | c :: _ => c == ' ' || c == '\t'

/-- Whether `c` is escaped, standing after `before` and before `rest`. A point or a parenthesis
counts where `afterNumber` tells that only a number stands before it. -/
def needsEscape (before : Option Char) (afterNumber : Bool) (c : Char) (rest : Chars) : Bool :=
  if isAlwaysEscaped c then true
  else if c == '&' && (Text.referenceBody? rest).isSome then true
  else if before.isNone && isBlockMarker c then true
  else if (c == '.' || c == ')') && afterNumber && endsMarker rest then true
  else c == '_' && !(isAlphanumeric? before && isAlphanumeric? rest.head?)

/-- Escapes a text of which `before` is the last character already done; `number` counts the digits
left of the number that the text begins with. -/
def escapeFrom (before : Option Char) (number : Option Nat) : Chars → Chars
  | [] => []
  | c :: cs =>
    let next := match number with
      | some (n + 1) => some n
      | _ => none
    let escaped := escapeFrom (some c) next cs
    if needsEscape before (number == some 0) c cs then '\\' :: c :: escaped else c :: escaped

def escape (s : Chars) : Chars :=
  let n := leadingNumber s
  escapeFrom none (if n == 0 then none else some n) s

def escapeReferences : Chars → Chars
  | [] => []
  | c :: cs =>
    if c == '&' && (Text.referenceBody? cs).isSome then '\\' :: c :: escapeReferences cs
    else c :: escapeReferences cs

def escapeQuote (c : Char) : Chars :=
  if c == '\\' || c == '"' then ['\\', c] else [c]

private def encodeAngle (c : Char) : Chars :=
  if c == '<' then ['%', '3', 'C'] else if c == '>' then ['%', '3', 'E'] else [c]

/-- A link destination; with white space, parentheses or angle brackets in it, it is put into angle
brackets. -/
def destination (s : Chars) : Chars :=
  let special := s.any fun c => Text.isBlank c || c == '(' || c == ')' || c == '<' || c == '>'
  if special then '<' :: s.flatMap encodeAngle ++ ['>'] else s

def linkTarget (dest title : Chars) : Chars :=
  if title.isEmpty then destination dest
  else destination dest ++ ' ' :: '"' :: escapeReferences (title.flatMap escapeQuote) ++ ['"']

/-- The length of the longest run of backticks. -/
def longestRun : (current : Nat) → Chars → Nat
  | current, [] => current
  | current, c :: cs =>
    if c == '\x60' then longestRun (current + 1) cs else max current (longestRun 0 cs)

end Canonmark.Markdown
