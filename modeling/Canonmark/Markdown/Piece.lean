import Canonmark.Markdown.Depth
import Canonmark.Markdown.Emphasis
import Canonmark.Markdown.Target

/-! The pieces of inline content, and the tokens that they are. -/
namespace Canonmark.Markdown

inductive Piece where
  | plain (text : Chars)
  | escaped (text : Chars)
  | sign (s : Sign)
  | verbatim (v : Verbatim) (raw : Chars)
  | address (text destination : Chars)
  | reference (r : Reference) (target : Target) (content : List Piece)
  deriving Inhabited, Repr

namespace Piece

private def textToken (s : Chars) : Token := .text (String.ofList s)

/-- Adds a part before others. Neighbouring escaped texts become one. -/
def consPart (p : Part) (ps : List Part) : List Part :=
  match p, ps with
  | .escaped a, .escaped b :: ps => .escaped (a ++ b) :: ps
  | p, ps => p :: ps

mutual

/-- The part that a piece is. In a link, an address is only text. -/
def part (inLink : Bool) : Piece → Part
  | plain text => .plain text
  | escaped text => .escaped text
  | sign s => .token (.sign s)
  | verbatim v raw => .token (.verbatim v (String.ofList raw))
  | address text destination =>
    if inLink then .escaped ('<' :: text ++ ['>'])
    else .token (.reference .link (.str (String.ofList destination)) (.str "") [textToken text])
  | reference r target content =>
    .token (.reference r (.str (String.ofList target.destination)) (.str (String.ofList
      target.title)) (Emphasis.tokensOf (maxDepth - 1) (partsOf (inLink || r == .link) content)))

def partsOf (inLink : Bool) : List Piece → List Part
  | [] => []
  | p :: ps => consPart (part inLink p) (partsOf inLink ps)

end

def tokensOf (ps : List Piece) : List Token := Emphasis.tokensOf maxDepth (partsOf false ps)

def isTooDeep (p : Piece) : Bool :=
  match part false p with
  | .token t => maxDepth < t.depth
  | _ => false

end Piece
end Canonmark.Markdown
