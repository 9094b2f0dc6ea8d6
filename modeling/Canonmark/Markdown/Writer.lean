import Canonmark.Markdown.Escape
import Canonmark.Markdown.Merge
import Canonmark.Markdown.Unit

/-! Trees written as markdown. -/
namespace Canonmark.Markdown

/-- What the writer keeps while it works: the chunks written so far, the last one first; the
indentation of further lines; whether the next block is the first of its container; whether the
blocks of the container follow without blank lines; and the markers of the enclosing lists. -/
structure Layout where
  out : List Chars := []
  indent : Nat := 0
  first : Bool := true
  tight : Bool := false
  markers : List (Chars × Bool) := []
  deriving Repr

inductive WriteFault where
  | notDocument (typeName : String)
  | foreignBlock (typeName : String)
  | foreignInline (typeName : String)
  | badStart (text : String)
  /-- The number of an item has more digits than a number is written with. -/
  | longNumber
  /-- The length of a fence is no whole number. -/
  | uncountableFence
  /-- The length of a fence is no machine word. -/
  | endlessFence
  deriving DecidableEq, Repr

namespace WriteFault

def message : WriteFault → String
  | .notDocument t => "Expected a Document to render, got " ++ t
  | .foreignBlock t | .foreignInline t => "Cannot render " ++ t ++ " as markdown"
  | .badStart s => "Invalid ordered list start: " ++ Text.Quoted.quoted s
  | .longNumber => Text.Numeral.longMessage
  | .uncountableFence => "The length of a fence must be a whole number"
  | .endlessFence => "The fence is too long"

/-- Where in the work a fault is found that the tree is to blame for. -/
def stage? : WriteFault → Option String
  | .notDocument _ => some "render_to_string"
  | .foreignBlock _ => some "visit"
  | .foreignInline _ => some "inline"
  | .badStart _ => some "list"
  | .longNumber | .uncountableFence | .endlessFence => none

end WriteFault

/-- Work on a layout; a fault leaves the layout as it is found. -/
abbrev Writing := EStateM WriteFault Layout

namespace Writer

def emit (chunk : Chars) : Writing Unit :=
  modify fun l => { l with out := chunk :: l.out }

def Layout.text (l : Layout) : Chars := l.out.reverse.flatten

def newline (indent : Nat) : Chars := '\n' :: List.replicate indent ' '

def startBlock : Writing Unit := do
  let l ← get
  if l.first then set { l with first := false }
  else
    emit (if l.tight then ['\n'] else ['\n', '\n'])
    emit (List.replicate l.indent ' ')

def beginCapture : Writing (List Chars) := do
  let l ← get
  set { l with out := [] }
  pure l.out

def endCapture (saved : List Chars) : Writing Chars := do
  let l ← get
  set { l with out := saved }
  pure (Layout.text l)

/-- Indents all lines but the first and the empty ones. -/
def indentLines (indent : Nat) (text : Chars) : Chars :=
  match Text.lines text with
  | [] => []
  | line :: rest =>
    Text.unlines (line :: rest.map fun l =>
      if l.isEmpty then [] else List.replicate indent ' ' ++ l)

def fence (n : Nat) : Chars := List.replicate n '\x60'

def maxLength : Nat := 0x7FFFFFFFFFFFFFFF

/-- The fence around a code block, which is longer than any run of backticks in it. -/
def fenceAround (style : Style) (text : Chars) : Except WriteFault Chars :=
  match style.fenceMin.lengthFor? (longestRun 0 text + 1) with
  | none => .error .uncountableFence
  | some n => if maxLength < n then .error .endlessFence else .ok (fence n)

def codeBlock (mark text info : Chars) : Chars :=
  let body := if text.getLast? == some '\n' then text.dropLast else text
  Text.unlines (if text.isEmpty then [mark ++ info, mark] else [mark ++ info, body, mark])

/-- A code span. It is padded where a backtick stands at an end or a space at both ends. -/
def codeSpan (text : Chars) : Chars :=
  let mark := fence (longestRun 0 text + 1)
  let spaced := text.head? == some ' ' && text.getLast? == some ' ' && !(Text.trim text).isEmpty
  if text.head? == some '\x60' || text.getLast? == some '\x60' || spaced then
    mark ++ ' ' :: text ++ ' ' :: mark
  else mark ++ text ++ mark

/-- Puts delimiters around a text, with the white space at its ends outside. A hard break at the end
goes outside too. -/
def delimited (delimiter inner : Chars) : Chars :=
  let content := Text.trim inner
  if content.isEmpty then inner
  else
    let leading := inner.takeWhile Text.isBlank
    let trailing := Text.takeEndWhile Text.isBlank inner
    let backslashes := (Text.takeEndWhile (· == '\\') content).length
    if trailing.head? == some '\n' && backslashes % 2 == 1 then
      leading ++ delimiter ++ content.dropLast ++ delimiter ++ '\\' :: trailing
    else leading ++ delimiter ++ content ++ delimiter ++ trailing

/-- Escapes hashes that end a line of text and would be read as the end of a heading. -/
def escapeClosingHashes (line : Chars) : Chars :=
  let hashes := Text.takeEndWhile (· == '#') line
  let before := Text.dropEndWhile (· == '#') line
  let alone := match before.getLast? with
    | none => true
    | some c => c == ' ' || c == '\t'
  if !hashes.isEmpty && alone then before ++ '\\' :: hashes else line

/-- The content of a heading; one line end may follow its last hashes. -/
def headingContent (content : Chars) : Chars :=
  if content.getLast? == some '\n' then escapeClosingHashes content.dropLast ++ ['\n']
  else escapeClosingHashes content

def quoteLine (line : Chars) : Chars :=
  if line.isEmpty then ['>'] else '>' :: ' ' :: line

def plainText (style : Style) (text : String) : Chars :=
  if style.escape then escape text.toList else text.toList

/-- Keeps an exclamation mark at the end of the last chunk from making an image of a link. -/
def guardLink (style : Style) : Writing Unit :=
  if style.escape then
    modify fun l =>
      match l.out with
      | chunk :: rest =>
        if chunk.getLast? == some '!' then { l with out := (chunk.dropLast ++ ['\\', '!']) :: rest }
        else l
      | [] => l
  else pure ()

def leaf (style : Style) : Leaf → Writing Unit
  | .codeBlock text info _ => do
    let l ← get
    match fenceAround style text.toList with
    | .error f => throw f
    | .ok mark => emit (indentLines l.indent (codeBlock mark text.toList (info.getD "").toList))
  | .htmlBlock text _ => do
    let l ← get
    emit (indentLines l.indent (Text.dropEndWhile (· == '\n') text.toList))
  | .thematicBreak => emit ['*', '*', '*']
  | .text text => emit (plainText style text)
  | .code text => emit (codeSpan text.toList)
  | .htmlInline text _ => emit text.toList
  | .softbreak => do
    let l ← get
    emit (newline l.indent)
  | .linebreak => do
    let l ← get
    emit ('\\' :: newline l.indent)

def startNumber (data : ListData) : Writing Int :=
  match data.start with
  | none | some "" => pure 1
  | some s =>
    if data.ordered then
      match Text.Numeral.toInt s.toList with
      | .ok i => pure i
      | .error _ => throw (.badStart s)
    else pure 1

def marker (style : Style) (data : ListData) (number : Int) : Except WriteFault Chars :=
  if data.ordered then
    let shown := if style.noIndex then 1 else number
    if Text.Numeral.isLong shown then .error .longNumber
    else
      .ok (Text.Numeral.ofInt shown ++ [if data.delimiter == some "paren" then ')' else '.', ' '])
  else .ok [style.bullet, ' ']

def refuseForeign (children : List Node) : Writing Unit :=
  match children.find? fun n => n.kind?.isNone with
  | some n => throw (.foreignInline n.typeName)
  | none => pure ()

mutual

def node (style : Style) : Node → Writing Unit
  | .foreign v => throw (.foreignBlock v.typeName)
  | .leaf l _ => leaf style l
  | .branch (.document _) _ children => blocks style children
  | .branch (.clause ..) _ children => blocks style children
  | .branch .paragraph _ children => do emit (← inlines style children)
  | .branch (.heading level) _ children => do
    let content ← inlines style children
    let content := if style.escape then headingContent content else content
    let hashes := List.replicate level.number '#'
    emit (if content.isEmpty then hashes else hashes ++ ' ' :: content)
  | .branch .blockQuote _ children => do
    let saved ← get
    set ({} : Layout)
    blocks style children
    let quoted := Layout.text (← get)
    set saved
    emit (List.intercalate (newline saved.indent) ((Text.lines quoted).map quoteLine))
  | .branch (.list data) _ children => do
    let tight := isWrittenTight style data children
    let start ← startNumber data
    items style data tight start true children
  | .branch .item _ children => do
    let saved ← get
    let (mark, tight) := saved.markers.headD (['-', ' '], true)
    set { saved with out := [], indent := saved.indent + mark.length, first := true, tight }
    blocks style children
    let l ← get
    let content := Layout.text l
    set { l with
      out := saved.out, indent := saved.indent, first := saved.first, tight := saved.tight }
    emit (if content.isEmpty then Text.trimEnd mark else mark ++ content)
  | .branch .emph _ children => do emit (delimited ['*'] (← inlines style children))
  | .branch .strong _ children => do emit (delimited ['*', '*'] (← inlines style children))
  | .branch (.link dest title) _ children => do
    guardLink style
    let content ← inlines style children
    emit ('[' :: content ++ ']' :: '(' :: linkTarget dest.toList title.toList ++ [')'])
  | .branch (.image dest title) _ children => do
    let content ← inlines style children
    emit ('!' :: '[' :: content ++ ']' :: '(' :: linkTarget dest.toList title.toList ++ [')'])
  | .branch (.templateVariable _ value) _ children =>
    if children.isEmpty then emit (plainText style value)
    else do emit (← inlines style children)
  | .branch (.computedVariable value) _ children =>
    if children.isEmpty then emit (plainText style value)
    else do emit (← inlines style children)

def inlines (style : Style) (children : List Node) : Writing Chars := do
  refuseForeign children
  let saved ← beginCapture
  each style children
  endCapture saved

def each (style : Style) : List Node → Writing Unit
  | [] => pure ()
  | n :: ns => do
    node style n
    each style ns

def items (style : Style) (data : ListData) (tight : Bool) :
    (number : Int) → (first : Bool) → List Node → Writing Unit
  | _, _, [] => pure ()
  | number, first, n :: ns => do
    let l ← get
    if !first then
      emit (if tight then ['\n'] else ['\n', '\n'])
      emit (List.replicate l.indent ' ')
    match marker style data number with
    | .error f => throw f
    | .ok mark =>
      modify fun l => { l with markers := (mark, tight) :: l.markers }
      node style n
      modify fun l => { l with markers := l.markers.tail }
      items style data tight (number + 1) false ns

/-- Writes the children of a block container. Inline nodes in a row are one block. -/
def blocks (style : Style) : List Node → Writing Unit
  | [] => pure ()
  | n :: ns =>
    if isInline n then do
      startBlock
      let saved ← beginCapture
      node style n
      run style saved ns
    else do
      block style n
      blocks style ns

def run (style : Style) (saved : List Chars) : List Node → Writing Unit
  | [] => do emit (← endCapture saved)
  | n :: ns =>
    if isInline n then do
      node style n
      run style saved ns
    else do
      emit (← endCapture saved)
      block style n
      blocks style ns

/-- Writes a block, or the blocks that it is transparent for. A foreign array is a run, which is
refused unless it is empty. -/
def block (style : Style) : Node → Writing Unit
  | .branch c span children =>
    if isTransparent (.branch c span children) then blocks style children
    else do
      startBlock
      node style (.branch c span children)
  | .foreign (.arr values) => do
    startBlock
    refuseForeign (values.map .foreign)
    emit []
  | n => do
    startBlock
    node style n

end

def document (style : Style) (n : Node) : Writing String := do
  match n with
  | .branch (.document _) .. =>
    set ({} : Layout)
    node style (merged n)
    let text := Text.trim (Layout.text (← get))
    modify fun l => { l with out := [] }
    pure (String.ofList text)
  | n => throw (.notDocument n.typeName)

end Writer

def write (style : Style) (n : Node) : Except WriteFault String :=
  match Writer.document style n {} with
  | .ok text _ => .ok text
  | .error fault _ => .error fault

end Canonmark.Markdown
