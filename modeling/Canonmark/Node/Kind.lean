import Canonmark.Text.LetterCase
import Canonmark.Text.Blank

/-! The kinds of nodes, and the class tags that name them. -/
namespace Canonmark

namespace ClassTag

def commonStart : String := "org.accordproject.commonmark."

def ciceroStart : String := "org.accordproject.ciceromark."

def capitalize : Chars → Chars
  | [] => []
  | c :: cs => Text.upper c ++ cs

/-- Joins the words of a name: a letter from a to z after an underscore takes its place in upper
case. -/
def joinWords : Chars → Chars
  | [] => []
  | [c] => [c]
  | c :: d :: cs =>
    if c == '_' && 'a' ≤ d && d ≤ 'z' then d.toUpper :: joinWords cs
    else c :: joinWords (d :: cs)

def ofElement (name : String) : String :=
  commonStart ++ String.ofList (capitalize (joinWords name.toList))

/-- What follows the last point of a class tag. -/
def shortName (tag : String) : String :=
  String.ofList (Text.takeEndWhile (· != '.') tag.toList)

def codeBlock : String := commonStart ++ "CodeBlock"

def htmlBlock : String := commonStart ++ "HtmlBlock"

def htmlInline : String := commonStart ++ "HtmlInline"

def tagInfo : String := commonStart ++ "TagInfo"

def htmlAttribute : String := commonStart ++ "Attribute"

/-- Classes whose nodes store text. -/
def storesText (tag : String) : Bool :=
  tag == commonStart ++ "Text" || tag == codeBlock || tag == htmlInline || tag == htmlBlock ||
    tag == commonStart ++ "Code"

def holdsHtml (tag : String) : Bool := tag == htmlInline || tag == htmlBlock

end ClassTag

inductive Kind where
  | document | paragraph | heading | blockQuote | list | item
  | codeBlock | htmlBlock | thematicBreak
  | text | emph | strong | code | link | image | htmlInline | softbreak | linebreak
  | clause | templateVariable | computedVariable
  deriving DecidableEq, Repr

namespace Kind

def all : List Kind := [
  document, paragraph, heading, blockQuote, list, item, codeBlock, htmlBlock, thematicBreak, text,
  emph, strong, code, link, image, htmlInline, softbreak, linebreak, clause, templateVariable,
  computedVariable]

def name : Kind → String
  | document => "Document"
  | paragraph => "Paragraph"
  | heading => "Heading"
  | blockQuote => "BlockQuote"
  | list => "List"
  | item => "Item"
  | codeBlock => "CodeBlock"
  | htmlBlock => "HtmlBlock"
  | thematicBreak => "ThematicBreak"
  | text => "Text"
  | emph => "Emph"
  | strong => "Strong"
  | code => "Code"
  | link => "Link"
  | image => "Image"
  | htmlInline => "HtmlInline"
  | softbreak => "Softbreak"
  | linebreak => "Linebreak"
  | clause => "Clause"
  | templateVariable => "Variable"
  | computedVariable => "ComputedVariable"

def elementName : Kind → String
  | document => "document"
  | paragraph => "paragraph"
  | heading => "heading"
  | blockQuote => "block_quote"
  | list => "list"
  | item => "item"
  | codeBlock => "code_block"
  | htmlBlock => "html_block"
  | thematicBreak => "thematic_break"
  | text => "text"
  | emph => "emph"
  | strong => "strong"
  | code => "code"
  | link => "link"
  | image => "image"
  | htmlInline => "html_inline"
  | softbreak => "softbreak"
  | linebreak => "linebreak"
  | clause => "clause"
  | templateVariable => "variable"
  | computedVariable => "computed_variable"

/-- Clauses and variables have a namespace of their own. -/
def classTag (k : Kind) : String :=
  match k with
  | clause | templateVariable | computedVariable => ClassTag.ciceroStart ++ k.name
  | _ => ClassTag.commonStart ++ k.name

def ofClassTag? (tag : String) : Option Kind := all.find? fun k => k.classTag == tag

/-- Names of the properties that a node may have besides its class, position and children. -/
def properties : Kind → List String
  | document => ["xmlns"]
  | heading => ["level"]
  | list => ["type", "start", "tight", "delimiter"]
  | codeBlock => ["text", "info", "tag"]
  | htmlBlock | htmlInline => ["text", "tag"]
  | text | code => ["text"]
  | link | image => ["destination", "title"]
  | clause => ["clauseid", "src", "clauseText"]
  | templateVariable => ["id", "value"]
  | computedVariable => ["value"]
  | paragraph | blockQuote | item | thematicBreak | emph | strong | softbreak | linebreak => []

def hasChildren : Kind → Bool
  | codeBlock | htmlBlock | thematicBreak | text | code | htmlInline | softbreak | linebreak =>
    false
  | _ => true

end Kind
end Canonmark
