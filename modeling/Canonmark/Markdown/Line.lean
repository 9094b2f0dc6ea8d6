import Canonmark.Text.Blank

/-! Lines of a markdown text, and the white space at their starts. A tab reaches to the next column
that is a multiple of four. -/
namespace Canonmark.Markdown

def isSpace (c : Char) : Bool := c == ' ' || c == '\t'

def isLineSpace (c : Char) : Bool := isSpace c || c == '\n'

/-- The columns that a tab fills. -/
def tabWidth (column : Nat) : Nat := 4 - column % 4

/-- What is left of a line from a column on. -/
structure Line where
  column : Nat := 0
  text : Chars
  deriving DecidableEq, Repr

namespace Line

def indentFrom (column : Nat) : Chars → Nat
  | [] => 0
  | c :: cs =>
    if c == ' ' then 1 + indentFrom (column + 1) cs
    else if c == '\t' then tabWidth column + indentFrom (column + tabWidth column) cs
    else 0

def indent (l : Line) : Nat := indentFrom l.column l.text

def content (l : Line) : Chars := l.text.dropWhile isSpace

def isBlank (l : Line) : Bool := l.text.all isSpace

/-- Removes up to `count` columns of white space. Of a tab that is cut, spaces are left. -/
def dropFrom (count column : Nat) : Chars → Line
  | [] => ⟨column, []⟩
  | c :: cs =>
    if count == 0 then ⟨column, c :: cs⟩
    else if c == ' ' then dropFrom (count - 1) (column + 1) cs
    else if c == '\t' then
      let width := tabWidth column
      if width ≤ count then dropFrom (count - width) (column + width) cs
      else ⟨column + count, List.replicate (width - count) ' ' ++ cs⟩
    else ⟨column, c :: cs⟩

def dropIndent (l : Line) (count : Nat) : Line := dropFrom count l.column l.text

/-- What follows `count` characters that are no tabs. -/
def after (l : Line) (count : Nat) : Line := ⟨l.column + count, l.text.drop count⟩

def atContent (l : Line) : Line := ⟨l.column + l.indent, l.content⟩

def isIndented (l : Line) : Bool := 4 ≤ l.indent

end Line

def normalizeEnds : Chars → Chars
  | [] => []
  | '\r' :: '\n' :: cs => '\n' :: normalizeEnds cs
  | c :: cs => (if c == '\r' then '\n' else c) :: normalizeEnds cs

/-- The lines of a text. What follows the last line end is a line only if it is not empty. -/
def linesOf (s : Chars) : List Line :=
  let ls := Text.lines (normalizeEnds s)
  let ls := if ls.getLast? == some [] then ls.dropLast else ls
  ls.map fun text => { text }

def trimSpaces (s : Chars) : Chars := Text.dropEndWhile isSpace (s.dropWhile isSpace)

def afterText? (part : Chars) : Chars → Option Chars
  | [] => if part.isEmpty then some [] else none
  | c :: cs =>
    match Text.dropStart? part (c :: cs) with
    | some rest => some rest
    | none => afterText? part cs

def holdsText (part s : Chars) : Bool := (afterText? part s).isSome

/-- ASCII characters that are neither letters nor digits nor controls nor the space. -/
def isPunctuation (c : Char) : Bool :=
  let n := c.toNat
  (0x21 ≤ n && n ≤ 0x2F) || (0x3A ≤ n && n ≤ 0x40) || (0x5B ≤ n && n ≤ 0x60) ||
    (0x7B ≤ n && n ≤ 0x7E)

/-- A text without the backslashes that stand before punctuation. -/
def dropEscapes : Chars → Chars
  | '\\' :: c :: cs =>
    if isPunctuation c then c :: dropEscapes cs else '\\' :: dropEscapes (c :: cs)
  | c :: cs => c :: dropEscapes cs
  | [] => []

end Canonmark.Markdown
