import Canonmark.Node.Basic
import Canonmark.Options
import Canonmark.Text.Numeral

/-! What a block container is written as: runs of inline nodes and single blocks, with blank lines
where the blocks would not be read back apart without them. -/
namespace Canonmark.Markdown

def isInline : Node → Bool
  | .leaf l _ =>
    match l with
    | .text _ | .code _ | .htmlInline .. | .softbreak | .linebreak => true
    | _ => false
  | .branch c .. =>
    match c with
    | .emph | .strong | .link .. | .image .. | .templateVariable .. | .computedVariable _ => true
    | _ => false
  | .foreign _ => false

/-- Clauses, and paragraphs that hold blocks, are written as their children. -/
def isTransparent : Node → Bool
  | .branch (.clause ..) .. => true
  | .branch .paragraph _ children => children.any (!isInline ·)
  | _ => false

inductive BlockUnit where
  | run (nodes : List Node)
  | single (node : Node)

namespace BlockUnit

private def ofRun : List Node → List BlockUnit
  | [] => []
  | n :: ns => [.run (n :: ns)]

mutual

def ofChildrenAfter (run : List Node) : List Node → List BlockUnit
  | [] => ofRun run
  | n :: ns =>
    if isInline n then ofChildrenAfter (run ++ [n]) ns
    else ofRun run ++ ofBlock n ++ ofChildrenAfter [] ns

/-- The units of a node that is not inline. A foreign array is taken for a run of its values. -/
def ofBlock : Node → List BlockUnit
  | .branch c span children =>
    if isTransparent (.branch c span children) then ofChildrenAfter [] children
    else [.single (.branch c span children)]
  | .foreign (.arr values) => [.run (values.map .foreign)]
  | n => [.single n]

end

def ofChildren (children : List Node) : List BlockUnit := ofChildrenAfter [] children

def isParagraphLike : BlockUnit → Bool
  | .run _ | .single (.branch .paragraph ..) => true
  | _ => false

def isEmptyParagraph : BlockUnit → Bool
  | .single (.branch .paragraph _ []) => true
  | _ => false

def isHtml : BlockUnit → Bool
  | .single (.leaf (.htmlBlock ..) _) => true
  | _ => false

def endsItself : BlockUnit → Bool
  | .single (.branch (.heading _) ..) => true
  | .single (.leaf .thematicBreak _) => true
  | .single (.leaf (.codeBlock ..) _) => true
  | _ => false

end BlockUnit

def itemUnits : Node → List BlockUnit
  | .branch .item _ children => BlockUnit.ofChildren children
  | _ => []

/-- Whether a list is read as one where it follows a paragraph without a blank line. -/
def canInterrupt (style : Style) (data : ListData) : List Node → Bool
  | [] => true
  | item :: _ =>
    if (itemUnits item).all BlockUnit.isEmptyParagraph then false
    else if !data.ordered || style.noIndex then true
    else
      match data.start with
      | none | some "" => true
      | some s =>
        match Text.Numeral.toInt s.toList with
        | .ok i => i == 1
        | .error _ => false

/-- Whether two consecutive blocks need a blank line between them to be read back apart. -/
def needsBlankLine (style : Style) (previous next : BlockUnit) : Bool :=
  if previous.isHtml then true
  else if next.isParagraphLike || next.isHtml then !previous.endsItself
  else if previous.isParagraphLike then
    match next with
    | .single (.branch (.list data) _ children) => !canInterrupt style data children
    | _ => false
  else false

def anyNeedsBlankLine (style : Style) : List BlockUnit → Bool
  | [] | [_] => false
  | a :: b :: rest => needsBlankLine style a b || anyNeedsBlankLine style (b :: rest)

def isWrittenTight (style : Style) (data : ListData) (children : List Node) : Bool :=
  data.isTight && !children.any fun item => anyNeedsBlankLine style (itemUnits item)

end Canonmark.Markdown
