import Canonmark.Markdown.Target
import Canonmark.Node.Basic

/-! Blocks of a markdown text. -/
namespace Canonmark.Markdown

inductive Marker where
  | bullet (sign : Char)
  | ordered (number : Nat) (paren : Bool)
  deriving DecidableEq, Repr

def Marker.agrees : Marker → Marker → Bool
  | .bullet a, .bullet b => a == b
  | .ordered _ a, .ordered _ b => a == b
  | _, _ => false

/-- A block. Blank lines and definitions are blocks without content. -/
inductive Block where
  | blank
  | definition (d : Definition)
  | thematicBreak
  | heading (level : Level) (text : Chars)
  | paragraph (text : Chars)
  /-- Code; only a fenced block has an info. -/
  | code (info : Option Chars) (text : Chars)
  | html (text : Chars)
  | quote (children : List Block)
  | list (marker : Marker) (items : List (List Block))
  deriving Inhabited, Repr

namespace Block

def isBlank : Block → Bool
  | blank => true
  | _ => false

def hasContent : Block → Bool
  | blank | definition _ => false
  | _ => true

mutual

def endsBlank : Block → Bool
  | blank => true
  | list _ items => itemsEndBlank items
  | _ => false

/-- Whether a blank line ends blocks; `ended` tells about the blocks before them. -/
def endBlank (ended : Bool) : List Block → Bool
  | [] => ended
  | b :: bs =>
    match b with
    | definition _ => endBlank ended bs
    | b => endBlank b.endsBlank bs

def itemsEndBlank : List (List Block) → Bool
  | [] => false
  | [item] => endBlank false item
  | _ :: item :: items => itemsEndBlank (item :: items)

end

def isParagraph : Block → Bool
  | paragraph _ => true
  | _ => false

def absorbsBlank : Block → Bool
  | list .. | code none _ => true
  | _ => false

/-- Whether a blank line that does not belong to a block stands before one. -/
def holdsGap (absorbing : Bool) : List Block → Bool
  | [] => false
  | b :: bs =>
    if b.isBlank then (!absorbing && !bs.all isBlank) || holdsGap absorbing bs
    else holdsGap b.absorbsBlank bs

/-- Whether blank lines follow the marker of an item and nothing else. -/
def isHollow (item : List Block) : Bool := !item.isEmpty && item.all isBlank

/-- Whether an item sets its blocks apart: it holds a blank line of its own, which a definition may
follow as well, or more than one paragraph. -/
def isSpaced (item : List Block) : Bool := holdsGap false item || 1 < item.countP isParagraph

/-- Whether a list is loose: a blank line parts two items, or an item sets its blocks apart, or
there is nothing but a blank line in an item. Where the list ends an item, `final`, blank lines at
its end are not its own. -/
def isLoose (final : Bool) (items : List (List Block)) : Bool :=
  items.dropLast.any (endBlank false) || items.any isSpaced ||
    (if final then items.dropLast else items).any isHollow

mutual

def definitions : Block → List Definition
  | definition d => [d]
  | quote children => definitionsOf children
  | list _ items => definitionsIn items
  | _ => []

def definitionsOf : List Block → List Definition
  | [] => []
  | b :: bs => definitions b ++ definitionsOf bs

def definitionsIn : List (List Block) → List Definition
  | [] => []
  | item :: items => definitionsOf item ++ definitionsIn items

end

end Block
end Canonmark.Markdown
