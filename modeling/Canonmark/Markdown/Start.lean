import Canonmark.Markdown.Block
import Canonmark.Markdown.RawHtml

/-! How lines begin blocks. -/
namespace Canonmark.Markdown

structure Fence where
  sign : Char
  size : Nat
  indent : Nat
  info : Chars
  deriving DecidableEq, Repr

/-- The start of an item: its marker, the columns that its later lines leave out, and the rest of
its first line, unless that is blank. -/
structure ItemStart where
  marker : Marker
  width : Nat
  rest : Option Line
  deriving DecidableEq, Repr

inductive Start where
  | quote (rest : Line)
  | heading (level : Level) (text : Chars)
  | fence (fence : Fence)
  | html (kind : RawHtml.BlockKind)
  | thematicBreak
  | item (item : ItemStart)
  | indentedCode
  deriving Repr

inductive Context where
  /-- It would begin a paragraph. -/
  | free
  /-- It would go on with the paragraph before it. -/
  | paragraph
  /-- It would go on with a paragraph in a block that it does not belong to. -/
  | lazy
  deriving DecidableEq, Repr

namespace Start

/-- The rest of a line after the sign of a quote and a space. -/
def quoteRest? (l : Line) : Option Line :=
  if l.isIndented then none
  else
    match l.atContent with
    | ⟨column, '>' :: cs⟩ => some ((Line.mk (column + 1) cs).dropIndent 1)
    | _ => none

def headingText (s : Chars) : Chars :=
  let text := trimSpaces s
  let body := Text.dropEndWhile (· == '#') text
  match body.getLast? with
  | none => []
  | some c => if isSpace c then trimSpaces body else text

def heading? (s : Chars) : Option (Level × Chars) :=
  let signs := s.takeWhile (· == '#')
  let rest := s.drop signs.length
  let separated := match rest with
    | [] => true
    | c :: _ => isSpace c
  if signs.isEmpty || !separated then none
  else Level.all[signs.length - 1]?.map fun level => (level, headingText rest)

/-- An opening fence. Its info holds no backtick if the fence is made of them. -/
def fence? (indent : Nat) (s : Chars) : Option Fence :=
  match s with
  | [] => none
  | c :: _ =>
    let size := (s.takeWhile (· == c)).length
    let info := trimSpaces (s.drop size)
    if size < 3 then none
    else if c == '~' || (c == '\x60' && !info.contains '\x60') then some ⟨c, size, indent, info⟩
    else none

def isThematicBreak (s : Chars) : Bool :=
  match s.filter (!isSpace ·) with
  | [] => false
  | c :: cs => (c == '*' || c == '-' || c == '_') && 2 ≤ cs.length && cs.all (· == c)

def marker? (s : Chars) : Option (Marker × Nat) :=
  match s with
  | [] => none
  | c :: _ =>
    if c == '-' || c == '+' || c == '*' then some (.bullet c, 1)
    else
      let digits := s.takeWhile Char.isDigit
      if digits.isEmpty || 9 < digits.length then none
      else
        match s.drop digits.length with
        | '.' :: _ => some (.ordered (Text.decimalValue digits) false, digits.length + 1)
        | ')' :: _ => some (.ordered (Text.decimalValue digits) true, digits.length + 1)
        | _ => none

/-- What follows white space of Unicode, each character of which fills a column. -/
def dropBlanks (l : Line) : Line := l.after (l.text.takeWhile Text.isBlank).length

/-- The start of an item. Where code or nothing follows the marker, one column is left out after it,
else all white space, that of Unicode included. -/
def item? (l : Line) : Option ItemStart :=
  let content := l.atContent
  (marker? content.text).bind fun (marker, length) =>
    let after := content.after length
    let width := l.indent + length
    let gap := after.indent
    let rest := dropBlanks (after.dropIndent gap)
    if after.isBlank then some ⟨marker, width + 1, none⟩
    else if gap == 0 then none
    else if rest.text.isEmpty then some ⟨marker, width + 1, some rest⟩
    else if 4 < gap then some ⟨marker, width + 1, some (after.dropIndent 1)⟩
    else some ⟨marker, width + (rest.column - after.column), some rest⟩

/-- Whether an item can interrupt a paragraph: it is not empty, and has no number but 1. -/
def interrupts (i : ItemStart) : Bool :=
  (i.rest.map fun rest => !rest.text.isEmpty).getD false &&
    match i.marker with
    | .bullet _ => true
    | .ordered number _ => number == 1

/-- What a line begins. Quotes and items are seen only where `nests` allows it. -/
def find? (context : Context) (nests : Bool) (l : Line) : Option Start :=
  if l.isIndented then (if context == .free && !l.isBlank then some .indentedCode else none)
  else
    match if nests then quoteRest? l else none with
    | some rest => some (.quote rest)
    | none =>
      match heading? l.content, fence? l.indent l.content,
          RawHtml.blockKind? (context != .free) l.content with
      | some (level, text), _, _ => some (.heading level text)
      | none, some f, _ => some (.fence f)
      | none, none, some kind => some (.html kind)
      | none, none, none =>
        if isThematicBreak l.content then some .thematicBreak
        else
          match if nests then item? l else none with
          | some i => if context != .paragraph || interrupts i then some (.item i) else none
          | none => none

/-- The level of the heading that a line makes of the paragraph before it. -/
def underline? (l : Line) : Option Level :=
  let signs := Text.dropEndWhile isSpace l.content
  if l.isIndented || signs.isEmpty then none
  else if signs.all (· == '=') then some .one
  else if signs.all (· == '-') then some .two
  else none

def closes (f : Fence) (l : Line) : Bool :=
  let size := (l.content.takeWhile (· == f.sign)).length
  !l.isIndented && f.size ≤ size && (l.content.drop size).all isSpace

end Start
end Canonmark.Markdown
