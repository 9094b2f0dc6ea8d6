import Canonmark.Json.Value
import Canonmark.Node.Kind
import Canonmark.Node.Span

/-! Typed trees of the canonical model. -/
namespace Canonmark

structure Attribute where
  name : String
  value : String
  deriving DecidableEq, Repr

structure TagInfo where
  tagName : String
  attributeString : String := ""
  attributes : List Attribute := []
  content : String := ""
  closed : Bool := false
  deriving DecidableEq, Repr

inductive Level where
  | one | two | three | four | five | six
  deriving DecidableEq, Repr

namespace Level

def all : List Level := [one, two, three, four, five, six]

def number : Level → Nat
  | one => 1
  | two => 2
  | three => 3
  | four => 4
  | five => 5
  | six => 6

def text : Level → String
  | one => "1"
  | two => "2"
  | three => "3"
  | four => "4"
  | five => "5"
  | six => "6"

def ofText? (s : String) : Option Level := all.find? fun l => l.text == s

end Level

def defaultNamespace : String := "http://commonmark.org/xml/1.0"

/-- The properties of a list, as they were written down. -/
structure ListData where
  listType : String
  start : Option String := none
  tight : Option String := none
  delimiter : Option String := none
  deriving DecidableEq, Repr

namespace ListData

def ordered (l : ListData) : Bool := l.listType == "ordered"

def isTight (l : ListData) : Bool := l.tight == some "true"

end ListData

inductive Leaf where
  | codeBlock (text : String) (info : Option String) (tag : Option TagInfo)
  | htmlBlock (text : String) (tag : Option TagInfo)
  | thematicBreak
  | text (text : String)
  | code (text : String)
  | htmlInline (text : String) (tag : Option TagInfo)
  | softbreak
  | linebreak
  deriving DecidableEq, Repr

inductive Container where
  | document (xmlns : String)
  | paragraph
  | heading (level : Level)
  | blockQuote
  | list (data : ListData)
  | item
  | emph
  | strong
  | link (destination title : String)
  | image (destination title : String)
  | clause (clauseid src : String) (clauseText : Option String)
  | templateVariable (id value : String)
  | computedVariable (value : String)
  deriving DecidableEq, Repr

/-- A tree. A foreign value is no node; it is only kept where a caller has put it. -/
inductive Node where
  | leaf (leaf : Leaf) (span : Option Span)
  | branch (container : Container) (span : Option Span) (children : List Node)
  | foreign (value : Json)
  deriving Inhabited, Repr

def Leaf.kind : Leaf → Kind
  | .codeBlock .. => .codeBlock
  | .htmlBlock .. => .htmlBlock
  | .thematicBreak => .thematicBreak
  | .text _ => .text
  | .code _ => .code
  | .htmlInline .. => .htmlInline
  | .softbreak => .softbreak
  | .linebreak => .linebreak

def Container.kind : Container → Kind
  | .document _ => .document
  | .paragraph => .paragraph
  | .heading _ => .heading
  | .blockQuote => .blockQuote
  | .list _ => .list
  | .item => .item
  | .emph => .emph
  | .strong => .strong
  | .link .. => .link
  | .image .. => .image
  | .clause .. => .clause
  | .templateVariable .. => .templateVariable
  | .computedVariable _ => .computedVariable

namespace Node

def kind? : Node → Option Kind
  | .leaf l _ => some l.kind
  | .branch c .. => some c.kind
  | .foreign _ => none

/-- The name of a node's kind, or of a foreign value's type. -/
def typeName : Node → String
  | .leaf l _ => l.kind.name
  | .branch c .. => c.kind.name
  | .foreign v => v.typeName

def children : Node → List Node
  | .branch _ _ cs => cs
  | _ => []

def span? : Node → Option Span
  | .leaf _ s | .branch _ s _ => s
  | .foreign _ => none

end Node
end Canonmark
