import Canonmark.Event
import Canonmark.Html.Fragment
import Canonmark.Node.Schema

/-! Event streams folded into trees. Open nodes are kept on a stack; a node joins the children of
the one below it when it is closed. The document is never closed, so that the tree can be taken from
it. A builder that attaches nodes as they are opened, and changes them in place, comes to the same
trees: see `Proofs/Builder/Coherence`. -/
namespace Canonmark

/-- A node in progress: its members, and its children once there are any. -/
structure Frame where
  members : Members
  children : Option (List Json) := none
  deriving Repr

namespace Frame

/-- The class of a node, which attributes may have replaced by any value. -/
def classValue (f : Frame) : Json := (f.members.get? Schema.classKey).getD .null

def node (f : Frame) : Json :=
  match f.children with
  | none => .obj f.members
  | some children => .obj (f.members.set Schema.childrenKey (.arr children))

/-- Makes room for children. What an attribute has left in their place is dropped. -/
def openChildren (f : Frame) : Frame :=
  match f.children with
  | none => { members := f.members.set Schema.childrenKey (.arr []), children := some [] }
  | some _ => f

def addChild (f : Frame) (child : Json) : Frame :=
  { f with children := some (f.children.getD [] ++ [child]) }

end Frame

structure TextRules where
  trim : Bool := false
  tagInfo : Bool := false
  deriving DecidableEq, Repr

namespace Builder

def documentName : String := "document"

abbrev Stack := List Frame

inductive Fault where
  | nothingOpen (name : String)
  | mismatch (name openName : String)
  | unknownEvent (value : Json)
  | noDocument
  | unclosed (count : Nat)
  /-- The options say nothing about text. -/
  | noTextRules
  /-- The class of the open node is a list or an object. -/
  | compositeClass
  /-- The class of the open node is no text. -/
  | classNotText
  /-- The open node has a text that is none, or is given one. -/
  | textNotText
  /-- What is to be trimmed is no text. -/
  | contentNotText
  deriving Repr

namespace Fault

/-- The name of a close tag stands between plain quotes, whatever it holds. -/
def message : Fault → String
  | nothingOpen name => "Close tag '" ++ name ++ "' with no open node"
  | mismatch name openName =>
    "Close tag '" ++ name ++ "' does not match open node '" ++ openName ++ "'"
  | unknownEvent value => "Unknown event: " ++ value.shown
  | noDocument => "Event stream produced no document"
  | unclosed count =>
    "Event stream ended with " ++ String.ofList (Text.Numeral.ofNat count) ++
      " unclosed node(s) inside the document"
  | noTextRules => "The options have no text rules"
  | compositeClass => "The class of the open node is a list or an object"
  | classNotText => "The class of the open node is no text"
  | textNotText => "The text of the open node is no text"
  | contentNotText => "The content that is to be trimmed is no text"

def stage : Fault → Option String
  | nothingOpen _ | mismatch .. => some "close_tag"
  | unknownEvent _ => some "feed"
  | noDocument | unclosed _ => some "result"
  | noTextRules | compositeClass | classNotText | textNotText | contentNotText => none

end Fault

/-- Opens a node. Its attributes become members, after its class. -/
def openTag (stack : Stack) (name : String) (attributes : Members) : Stack :=
  let members := attributes.foldl (fun ms (n, v) => Members.set ms n v)
    [(Schema.classKey, .str (ClassTag.ofElement name))]
  let below := match stack with
    | [] => []
    | parent :: rest => parent.openChildren :: rest
  { members } :: below

def addText (ms : Members) (content : String) : Except Fault Members :=
  match ms.get? "text" with
  | none => .ok (ms.set "text" (.str content))
  | some (.str s) => .ok (ms.set "text" (.str (s ++ content)))
  | some _ => .error .textNotText

def fragment? (tag : String) (ms : Members) : Option String :=
  let source? :=
    if ClassTag.holdsHtml tag then ms.get? "text"
    else if tag == ClassTag.codeBlock then ms.get? "info"
    else none
  match source? with
  | some (.str s) => some s
  | _ => none

/-- The members of a node with what is known about its tag, if anything is. -/
def addTag (tag : String) (ms : Members) : Members :=
  match (fragment? tag ms).bind Html.inspect with
  | some info => ms.set "tag" (Schema.tagToJson info)
  | none => ms

/-- Gives text to the innermost node. Only some classes store it, and empty text changes nothing. -/
def text (rules : Option TextRules) (stack : Stack) (content : String) : Except Fault Stack :=
  match rules with
  | none => .error .noTextRules
  | some rules =>
    let content := if rules.trim then Text.trimString content else content
    match stack with
    | [] => .ok []
    | head :: rest =>
      if content == "" then .ok (head :: rest)
      else
        match head.classValue with
        | .arr _ | .obj _ => .error .compositeClass
        | .str tag => do
          let ms ← if ClassTag.storesText tag then addText head.members content
            else .ok head.members
          .ok ({ head with members := if rules.tagInfo then addTag tag ms else ms } :: rest)
        | _ => .ok (head :: rest)

/-- Gives content that is no text to the innermost node. No event should have such content: a class
that stores text refuses it, also where an attribute has left a value that it could be added to. -/
def value (rules : Option TextRules) (stack : Stack) (content : Json) : Except Fault Stack :=
  match rules with
  | none => .error .noTextRules
  | some rules =>
    if rules.trim then .error .contentNotText
    else
      match stack with
      | [] => .ok []
      | head :: rest =>
        if !content.truthy then .ok (head :: rest)
        else
          match head.classValue with
          | .arr _ | .obj _ => .error .compositeClass
          | .str tag => if ClassTag.storesText tag then .error .textNotText else .ok (head :: rest)
          | _ => .ok (head :: rest)

def closeTag (stack : Stack) (name : String) : Except Fault Stack :=
  match stack with
  | [] => .error (.nothingOpen name)
  | head :: rest =>
    match head.classValue with
    | .str tag =>
      if tag != ClassTag.ofElement name then .error (.mismatch name (ClassTag.shortName tag))
      else if name == documentName then .ok (head :: rest)
      else
        match rest with
        | [] => .ok []
        | parent :: rest => .ok (parent.addChild head.node :: rest)
    | _ => .error .classNotText

def step (rules : Option TextRules) (stack : Stack) : Event → Except Fault Stack
  | .openTag name attributes => .ok (openTag stack name attributes)
  | .text content => text rules stack content
  | .value content => value rules stack content
  | .closeTag name => closeTag stack name
  | .unknown value => .error (.unknownEvent value)

/-- Takes in events up to the first that cannot be; the stack is then as that event found it. -/
def feed (rules : Option TextRules) : Stack → List Event → Stack × Option Fault
  | stack, [] => (stack, none)
  | stack, e :: es =>
    match step rules stack e with
    | .ok stack => feed rules stack es
    | .error f => (stack, some f)

def result : Stack → Except Fault Json
  | [] => .error .noDocument
  | [root] => .ok root.node
  | _ :: rest => .error (.unclosed rest.length)

def build (rules : Option TextRules) (events : List Event) : Except Fault Json :=
  match feed rules [] events with
  | (stack, none) => result stack
  | (_, some f) => .error f

end Builder
end Canonmark
