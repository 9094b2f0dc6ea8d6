import Canonmark.Markdown.Start

/-! Lines put together into blocks. The blocks that a line can still add to form the tip of the
tree; each line closes some of them, and leaves a new tip. Only a definition looks ahead: it is
known at its first line whether the lines after it complete it. -/
namespace Canonmark.Markdown

/-- The open blocks, the outer ones first. -/
inductive Tip where
  | idle
  /-- A definition, `pending` lines of which are still to come. -/
  | defined (pending : Nat)
  | paragraph (lines : List Chars)
  | fenced (fence : Fence) (lines : List Chars)
  | indented (lines : List Chars)
  | html (kind : RawHtml.BlockKind) (lines : List Chars)
  | quote (done : List Block) (inner : Tip)
  /-- A list of which no item is open. -/
  | list (marker : Marker) (items : List (List Block))
  | item (marker : Marker) (items : List (List Block)) (width : Nat)
      (done : List Block) (inner : Tip)
  deriving Inhabited, Repr

structure Growth where
  closed : List Block
  tip : Tip

namespace Growth

def after (g : Growth) (bs : List Block) : Growth := { g with closed := bs ++ g.closed }

def keep (tip : Tip) : Growth := ⟨[], tip⟩

def leaf (b : Block) : Growth := ⟨[b], .idle⟩

def inQuote (g : Growth) (done : List Block) : Growth := keep (.quote (done ++ g.closed) g.tip)

def inItem (g : Growth) (marker : Marker) (items : List (List Block)) (width : Nat)
    (done : List Block) : Growth :=
  keep (.item marker items width (done ++ g.closed) g.tip)

end Growth

inductive Layer where
  | quote
  | item (width : Nat)
  deriving DecidableEq, Repr

namespace Layer

/-- What is left of a line that belongs to a layer. A blank line belongs to every item. -/
def rest? : Layer → Line → Option Line
  | quote, l => Start.quoteRest? l
  | item width, l =>
    if l.isBlank then some ⟨l.column, []⟩
    else if width ≤ l.indent then some (l.dropIndent width)
    else none

end Layer

/-- What a line sees ahead: the layers that it is in, the outer ones first, and the lines after it
as they are written. -/
structure Outlook where
  layers : List Layer := []
  later : List Line

namespace Outlook

def enter (o : Outlook) (layer : Layer) : Outlook := { o with layers := o.layers ++ [layer] }

def taken? (nests : Bool) : List Layer → Line → Option Chars
  | [], l => if l.isBlank || (Start.find? .paragraph nests l).isSome then none else some l.text
  | layer :: layers, l =>
    match layer.rest? l with
    | some rest => taken? nests layers rest
    | none => if l.isBlank || (Start.find? .lazy true l).isSome then none else some l.text

def takenFrom (nests : Bool) (layers : List Layer) : List Line → List Chars
  | [] => []
  | l :: ls =>
    match taken? nests layers l with
    | some text => text :: takenFrom nests layers ls
    | none => []

def paragraph (nests : Bool) (o : Outlook) : List Chars := takenFrom nests o.layers o.later

end Outlook

namespace Tip

def endLines (lines : List Chars) : Chars := lines.flatMap (· ++ ['\n'])

private def dropEmptyEnd (lines : List Chars) : Chars :=
  Text.dropEndWhile (· == '\n') (Text.unlines lines)

/-- A blank line stands for the blank lines at the end of a block. -/
def blankEnd (lines : List Chars) : List Block :=
  if (lines.getLast?.map (·.all isSpace)).getD false then [.blank] else []

/-- The text of a paragraph. White space at the starts of its inner lines belongs to it. -/
def paragraphText (lines : List Chars) : Chars :=
  Text.dropEndWhile isSpace ((Text.unlines lines).dropWhile isLineSpace)

def paragraphBlocks (lines : List Chars) : List Block :=
  let text := paragraphText lines
  if text.isEmpty then [] else [.paragraph text]

def heading? (level : Level) (lines : List Chars) : Option Block :=
  let text := paragraphText lines
  if text.isEmpty then none else some (.heading level text)

def fencedBlock (f : Fence) (lines : List Chars) : Block :=
  .code (some (dropEscapes f.info)) (endLines lines)

def indentedBlock (lines : List Chars) : Block := .code none (dropEmptyEnd lines)

def htmlBlock (lines : List Chars) : Block := .html (dropEmptyEnd lines ++ ['\n'])

/-- The lines of a block that ends what it is in. An item does not end in white space. -/
def lastLines (inItem : Bool) (lines : List Chars) : List Chars :=
  if inItem then (lines.reverse.dropWhile (·.all Text.isBlank)).reverse else lines

/-- The blocks that are left when nothing more is added; `inItem` tells whether they end an item. -/
def closeIn (inItem : Bool) : Tip → List Block
  | idle | defined _ => []
  | paragraph lines => paragraphBlocks (lastLines inItem lines)
  | fenced f lines => fencedBlock f (lastLines inItem lines) :: blankEnd lines
  | indented lines => indentedBlock (lastLines inItem lines) :: blankEnd lines
  | html _ lines => htmlBlock (lastLines inItem lines) :: blankEnd lines
  | quote done inner => [.quote (done ++ inner.closeIn false)]
  | list marker items => [.list marker items]
  | item marker items _ done inner => [.list marker (items ++ [done ++ inner.closeIn true])]

def close (tip : Tip) : List Block := tip.closeIn false

/-- Whether a line that begins nothing can be added without the signs of the blocks around it. -/
def endsInParagraph : Tip → Bool
  | defined _ | paragraph _ => true
  | quote _ inner => inner.endsInParagraph
  | item _ _ _ _ inner => inner.endsInParagraph
  | _ => false

def isIdle : Tip → Bool
  | idle => true
  | paragraph lines => lines.all (·.isEmpty)
  | _ => false

private def lineCount (s rest : Chars) : Nat := s.count '\n' - rest.count '\n'

def freshText (nests : Bool) (o : Outlook) (l : Line) : Growth :=
  if l.content.head? == some '[' then
    let text := endLines (l.content :: o.paragraph nests)
    match Definition.read? text with
    | some (d, rest) => ⟨[.definition d], defined (lineCount text rest - 1)⟩
    | none => .keep (paragraph [l.content])
  else .keep (paragraph [l.content])

def extend (levels : Nat) (o : Outlook) (l : Line) : Tip → Growth
  | defined 0 => freshText (0 < levels) o l
  | defined (pending + 1) => .keep (defined pending)
  | paragraph lines => .keep (paragraph (lines ++ [l.text]))
  | quote done inner => (inner.extend (levels - 1) (o.enter .quote) l).inQuote done
  | item marker items width done inner =>
    (inner.extend (levels - 1) (o.enter (.item width)) l).inItem marker items width done
  | tip => .keep tip

def addHtml (kind : RawHtml.BlockKind) (lines : List Chars) (line : Chars) : Growth :=
  if kind.endsAt line then .leaf (htmlBlock (lines ++ [line]))
    else .keep (html kind (lines ++ [line]))

/-- What a line begins where nothing is open; `start` begins the blocks that have a start. -/
def freshBy (nests : Bool) (o : Outlook) (start : Start → Line → Growth) (l : Line) : Growth :=
  if l.isBlank then .leaf .blank
  else
    match Start.find? .free nests l with
    | some s => start s l
    | none => freshText nests o l

/-- Begins a block; quotes and lists are nested at most `levels` deep. An item in which only white
space of Unicode stands begins with a paragraph that is empty so far. -/
def start : (levels : Nat) → Outlook → Start → Line → Growth
  | _, _, .heading level text, _ => .leaf (.heading level text)
  | _, _, .fence f, _ => .keep (fenced f [])
  | _, _, .html kind, l => addHtml kind [] l.text
  | _, _, .thematicBreak, _ => .leaf .thematicBreak
  | _, _, .indentedCode, l => .keep (indented [(l.dropIndent 4).text])
  | levels + 1, o, .quote rest, _ =>
    let o := o.enter .quote
    (freshBy (0 < levels) o (start levels o) rest).inQuote []
  | levels + 1, o, .item i, _ =>
    let o := o.enter (.item i.width)
    match i.rest with
    | none => .keep (item i.marker [] i.width [] idle)
    | some rest =>
      if rest.text.isEmpty then .keep (item i.marker [] i.width [] (paragraph [[]]))
      else (freshBy (0 < levels) o (start levels o) rest).inItem i.marker [] i.width []
  | 0, _, .quote _, l | 0, _, .item _, l => .keep (paragraph [l.content])

def fresh (levels : Nat) (o : Outlook) (l : Line) : Growth :=
  freshBy (0 < levels) o (start levels o) l

def joinList (marker : Marker) (items : List (List Block)) : Tip → Tip
  | item _ _ width done inner => item marker items width done inner
  | tip => tip

/-- What a line does that does not belong to the tip: it begins a block, which closes the tip; or it
goes on with the paragraph that the tip ends in; or it begins a paragraph. -/
def leave (levels : Nat) (o : Outlook) (tip : Tip) (l : Line) : Growth :=
  if l.isBlank then ⟨tip.close ++ [.blank], idle⟩
  else
    match Start.find? (if tip.endsInParagraph then .lazy else .free) (0 < levels) l with
    | some s => (start levels o s l).after tip.close
    | none =>
      if tip.endsInParagraph then tip.extend levels o l
      else (freshText (0 < levels) o l).after tip.close

/-- What a line does after the items of a list, where it belongs to none of them. -/
def leaveItem (levels : Nat) (o : Outlook) (marker : Marker) (items : List (List Block)) (tip : Tip)
    (l : Line) : Growth :=
  match Start.find? .lazy (0 < levels) l with
  | some (.item i) =>
    if marker.agrees i.marker then
      let g := start levels o (.item i) l
      ⟨g.closed, joinList marker items g.tip⟩
    else leave levels o tip l
  | _ => leave levels o tip l

def advance (levels : Nat) (o : Outlook) : Tip → Line → Growth
  | idle, l | defined 0, l => fresh levels o l
  | defined (pending + 1), _ => .keep (defined pending)
  | paragraph lines, l =>
    if l.isBlank then ⟨paragraphBlocks lines ++ [.blank], idle⟩
    else
      match (Start.underline? l).bind (heading? · lines) with
      | some b => .leaf b
      | none =>
        match Start.find? .paragraph (0 < levels) l with
        | some s => (start levels o s l).after (paragraphBlocks lines)
        | none => .keep (paragraph (lines ++ [l.text]))
  | fenced f lines, l =>
    if Start.closes f l then .leaf (fencedBlock f lines)
    else .keep (fenced f (lines ++ [(l.dropIndent f.indent).text]))
  | indented lines, l =>
    if l.isBlank || l.isIndented then .keep (indented (lines ++ [(l.dropIndent 4).text]))
    else (fresh levels o l).after (indentedBlock lines :: blankEnd lines)
  | html kind lines, l =>
    if kind == .paragraph && l.isBlank then ⟨[htmlBlock lines, .blank], idle⟩
    else addHtml kind lines l.text
  | quote done inner, l =>
    match Layer.quote.rest? l with
    | some rest => (inner.advance (levels - 1) (o.enter .quote) rest).inQuote done
    | none => leave levels o (quote done inner) l
  | list marker items, l =>
    if l.isBlank then .keep (list marker items)
    else leaveItem levels o marker items (list marker items) l
  | item marker items width done inner, l =>
    if l.isBlank && done.isEmpty && inner.isIdle then .keep (list marker (items ++ [[.blank]]))
    else
      match (Layer.item width).rest? l with
      | some rest =>
        (inner.advance (levels - 1) (o.enter (.item width)) rest).inItem marker items width done
      | none =>
        leaveItem levels o marker (items ++ [done ++ inner.closeIn true])
          (item marker items width done inner) l

/-- Takes in lines, after the blocks that are already closed. -/
def grow (levels : Nat) : (done : List Block) → Tip → List Line → List Block
  | done, tip, [] => done ++ tip.close
  | done, tip, l :: ls =>
    let g := tip.advance levels { later := ls } l
    grow levels (done ++ g.closed) g.tip ls

end Tip

def blocksOf (s : Chars) : List Block := Tip.grow maxDepth [] .idle (linesOf s)

end Canonmark.Markdown
