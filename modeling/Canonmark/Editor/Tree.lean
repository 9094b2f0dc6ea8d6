import Canonmark.Editor.Decode
import Canonmark.Node.Schema

/-! The tree of the canonical model, in JSON form, that an editor tree stands for. -/
namespace Canonmark.Editor

inductive MapFault where
  | unmapped (node : Node)
  | noChildren (cls : Json)
  | childrenNotList

namespace MapFault

def message : MapFault → String
  | .unmapped (.element type ..) => "Unhandled node of type " ++ Text.Quoted.quoted type
  | .unmapped (.text ..) => "Unhandled text"
  | .noChildren cls => "Parent node " ++ cls.shown ++ " cannot hold children"
  | .childrenNotList => "The children of the parent node are not a list"

end MapFault

def common (name : String) (ms : List (String × Json)) : List (String × Json) :=
  (Schema.classKey, .str (ClassTag.commonStart ++ name)) :: ms

def cicero (name : String) (ms : List (String × Json)) : List (String × Json) :=
  (Schema.classKey, .str (ClassTag.ciceroStart ++ name)) :: ms

def optional (name : String) : Option String → List (String × Json)
  | none => []
  | some s => [(name, .str s)]

def withNodes (ms : List (String × Json)) (nodes : List Json) : Json :=
  .obj (ms ++ [(Schema.childrenKey, .arr nodes)])

/-- A marked text. Code is nothing but code; of bold and italic, italic is outside. -/
def composeMarks (text : String) (marks : List String) : Json :=
  if marks.contains "code" then .obj (common "Code" [("text", .str text)])
  else
    let plain : Json := .obj (common "Text" [("text", .str text)])
    let bold := if marks.contains "bold" then withNodes (common "Strong" []) [plain] else plain
    if marks.contains "italic" then withNodes (common "Emph" []) [bold] else bold

/-- What an element becomes: a leaf, a node that takes its children, or an item, whose paragraph
takes them. -/
inductive Shape where
  | leaf (members : Members)
  | container (members : Members)
  | item

def shape? (type : String) (data : Option Data) (text : Option String) : Option Shape :=
  match headingLevels.lookup type with
  | some level => some (.container (common "Heading" [("level", .str level.text)]))
  | none =>
    if type == "paragraph" then some (.container (common "Paragraph" []))
    else if type == "quote" || type == "block_quote" then some (.container (common "BlockQuote" []))
    else if type == "horizontal_rule" then some (.leaf (common "ThematicBreak" []))
    else if type == "code_block"
      then some (.leaf (common "CodeBlock" [("text", .str (text.getD ""))]))
    else if type == "html_block"
      then some (.leaf (common "HtmlBlock" [("text", .str (text.getD ""))]))
    else if type == "html_inline"
      then some (.leaf (common "HtmlInline" [("text", .str (text.getD ""))]))
    else if type == "list_item" then some .item
    else
      match data with
      | some (.list delimiter start tight) =>
        let listType := if type == "ol_list" then "ordered" else "bullet"
        some (.container (common "List" (("type", .str listType) ::
          optional "delimiter" delimiter ++ optional "start" start ++ optional "tight" tight)))
      | some (.link href) =>
        some (.container (common "Link" [("destination", .str href), ("title", .str "")]))
      | some (.clause clauseid src clauseText) =>
        some (.container (cicero "Clause" (("clauseid", .str clauseid) :: ("src", .str src) ::
          optional "clauseText" clauseText)))
      | some (.templateVariable id value) =>
        some (.container (cicero "Variable" [("id", .str id), ("value", .str value)]))
      | some (.computed value) =>
        some (.container (cicero "ComputedVariable" [("value", .str value)]))
      | none => none

mutual

/-- The canonical form of a node. The children of what becomes a leaf are dropped. -/
def toTree : Node → Except MapFault Json
  | .text text marks => .ok (composeMarks text marks)
  | .element type data nodes text =>
    match shape? type data text with
    | none => .error (.unmapped (.element type data nodes text))
    | some (.leaf ms) => .ok (.obj ms)
    | some (.container ms) => (toTrees nodes).map (withNodes ms)
    | some .item =>
      (toTrees nodes).map fun ts =>
        withNodes (common "Item" []) [withNodes (common "Paragraph" []) ts]

def toTrees : List Node → Except MapFault (List Json)
  | [] => .ok []
  | n :: ns => do
    let t ← toTree n
    let ts ← toTrees ns
    .ok (t :: ts)

end

def addTo (parent : Members) (nodes : List Node) : Except MapFault Json :=
  match parent.get? Schema.childrenKey with
  | none => .error (.noChildren ((parent.get? Schema.classKey).getD .null))
  | some (.arr before) => do
    let ts ← toTrees nodes
    .ok (.obj (parent.set Schema.childrenKey (.arr (before ++ ts))))
  | some v =>
    match nodes with
    | [] => .ok (.obj (parent.set Schema.childrenKey v))
    | n :: _ =>
      match toTree n with
      | .error f => .error f
      | .ok _ => .error .childrenNotList

def document (nodes : List Node) : Except MapFault Json :=
  addTo (common "Document" [("xmlns", .str defaultNamespace), (Schema.childrenKey, .arr [])]) nodes

end Canonmark.Editor
