import Canonmark.Json.Literal
import Canonmark.Node.Basic

/-! Trees of the rich-text editor, read from their JSON form. Texts carry marks; elements have a
type and perhaps data, which is read by the type, so that nothing is missing later. -/
namespace Canonmark.Editor

inductive Data where
  | list (delimiter start tight : Option String)
  | link (href : String)
  | clause (clauseid src : String) (clauseText : Option String)
  | templateVariable (id value : String)
  | computed (value : String)
  deriving DecidableEq, Repr

/-- A node of the editor. The marks of a text are in order and occur once. -/
inductive Node where
  | text (text : String) (marks : List String)
  | element (type : String) (data : Option Data) (nodes : List Node) (text : Option String)
  deriving Inhabited, Repr

inductive Fault where
  | noNodes
  | notObject (path : String)
  | noType (path : String)
  | unhandled (value : Json)
  | dataNotObject (path : String)
  | missingData (type key path : String)
  | nodesNotList (path : String)
  | textNotString (path : String)
  | textNotObject (path : String)
  | marksNotList (path : String)
  | markWithoutType (path : String)
  deriving Repr

namespace Fault

def message : Fault → String
  | .noNodes => "Editor value must be an object with a 'nodes' list"
  | .notObject path => "Editor node at " ++ path ++ " must be an object"
  | .noType path => "Editor node at " ++ path ++ " has neither a text 'object' nor a 'type'"
  | .unhandled v => "Unhandled node: " ++ v.shown
  | .dataNotObject path => "Data at " ++ path ++ " must be an object"
  | .missingData type key path =>
    "Editor node '" ++ type ++ "' at " ++ path ++ " is missing data field '" ++ key ++ "'"
  | .nodesNotList path =>
    "'nodes' at " ++ (if path == "" then "root" else path) ++ " must be a list"
  | .textNotString path => "Text at " ++ path ++ " must be a string"
  | .textNotObject path => "Text node at " ++ path ++ " must be an object"
  | .marksNotList path => "Marks at " ++ path ++ " must be a list"
  | .markWithoutType path => "Mark at " ++ path ++ " has no type"

def parameter : Fault → Option String
  | .noNodes | .nodesNotList _ => some "nodes"
  | .noType _ => some "type"
  | .dataNotObject _ => some "data"
  | .missingData _ key _ => some key
  | .textNotString _ => some "text"
  | .marksNotList _ | .markWithoutType _ => some "marks"
  | .notObject _ | .unhandled _ | .textNotObject _ => none

end Fault

def headingLevels : List (String × Level) := [
  ("heading_one", .one), ("heading_two", .two), ("heading_three", .three), ("heading_four", .four),
  ("heading_five", .five), ("heading_six", .six)]

def plainTypes : List String :=
  ["paragraph", "quote", "block_quote", "horizontal_rule", "code_block", "html_block",
    "html_inline", "list_item"] ++ headingLevels.map Prod.fst

def dataTypes : List String := ["ol_list", "ul_list", "link", "clause", "variable", "computed"]

def textTypes : List String := ["code_block", "html_block", "html_inline"]

/-- A data value as text. -/
def dataText : Json → Option String
  | .null => none
  | .bool b => some (if b then "true" else "false")
  | v => some v.plain

def optionalData (ms : Members) (key : String) : Option String :=
  (ms.get? key).bind dataText

def requiredData (ms : Members) (type path key : String) : Except Fault String :=
  match optionalData ms key with
  | some s => .ok s
  | none => .error (.missingData type key path)

def dataOf (type path : String) (ms : Members) : Except Fault (Option Data) :=
  if type == "ol_list" || type == "ul_list" then
    .ok (some
      (.list (optionalData ms "delimiter") (optionalData ms "start") (optionalData ms "tight")))
  else if type == "link" then do
    let href ← requiredData ms type path "href"
    .ok (some (.link href))
  else if type == "clause" then do
    let clauseid ← requiredData ms type path "clauseid"
    let src ← requiredData ms type path "src"
    .ok (some (.clause clauseid src (optionalData ms "clauseText")))
  else if type == "variable" then do
    let id ← requiredData ms type path "id"
    let value ← requiredData ms type path "value"
    .ok (some (.templateVariable id value))
  else if type == "computed" then do
    let value ← requiredData ms type path "value"
    .ok (some (.computed value))
  else .ok none

/-- Adds a mark to marks in order, unless it is there. -/
def addMark (mark : String) : List String → List String
  | [] => [mark]
  | m :: ms =>
    if mark == m then m :: ms else if mark < m then mark :: m :: ms else m :: addMark mark ms

/-- The type of a mark: the mark itself if it is a text. -/
def markType? : Json → Option String
  | .str s => some s
  | .obj ms =>
    match Members.get? ms "type" with
    | some (.str s) => some s
    | _ => none
  | _ => none

def marksOf (path : String) : Option Json → Except Fault (List String)
  | none | some .null => .ok []
  | some (.arr vs) =>
    vs.foldlM (fun marks v =>
      match markType? v with
      | some mark => .ok (addMark mark marks)
      | none => .error (.markWithoutType path)) []
  | some _ => .error (.marksNotList path)

def plainText (path : String) (ms : Members) : Except Fault (List Node) :=
  match (Members.get? ms "text").getD (.str "") with
  | .str text => (marksOf path (Members.get? ms "marks")).map fun marks => [.text text marks]
  | _ => .error (.textNotString path)

def index (i : Nat) : String := "[" ++ String.ofList (Text.Numeral.ofNat i) ++ "]"

mutual

/-- Reads a text. One that is divided into leaves has a node for each. -/
def textOfJson (path : String) : Json → Except Fault (List Node)
  | .obj ms =>
    match leavesIn path ms with
    | some leaves => leaves
    | none => plainText path ms
  | _ => .error (.textNotObject path)

/-- The leaves among the members of a text, if there is a list of them. -/
def leavesIn (path : String) : List (String × Json) → Option (Except Fault (List Node))
  | [] => none
  | (name, v) :: ms => if name == "leaves" then leavesOf path v else leavesIn path ms

def leavesOf (path : String) : Json → Option (Except Fault (List Node))
  | .arr vs => some (leavesFrom path 0 vs)
  | _ => none

def leavesFrom (path : String) : (start : Nat) → List Json → Except Fault (List Node)
  | _, [] => .ok []
  | i, v :: vs => do
    let leaf ← textOfJson (path ++ ".leaves" ++ index i) v
    let leaves ← leavesFrom path (i + 1) vs
    .ok (leaf ++ leaves)

end

mutual

def collectText : List Node → String
  | [] => ""
  | n :: ns => nodeText n ++ collectText ns

def nodeText : Node → String
  | .text text _ => text
  | .element _ _ nodes _ => collectText nodes

end

/-- The element of a type with its parts. Types with a text of their own take it from their children
where it is missing. -/
def elementOf (type path : String) (data : Option Data) (nodes : List Node) :
    Option Json → Except Fault (List Node)
  | some (.str text) => .ok [.element type data nodes (some text)]
  | none | some .null =>
    .ok [.element type data nodes (if textTypes.contains type
      then some (collectText nodes) else none)]
  | some _ => .error (.textNotString path)

def dataMembers (path : String) (ms : Members) : Except Fault Members :=
  match Members.get? ms "data" with
  | some (.obj data) => .ok data
  | some v => if v.truthy then .error (.dataNotObject path) else .ok []
  | none => .ok []

def typeOf (path : String) (ms : Members) : Except Fault String :=
  match ms.given? "type" with
  | none => .error (.noType path)
  | some (.str type) =>
    if plainTypes.contains type || dataTypes.contains type then .ok type
    else .error (.unhandled (.obj ms))
  | some _ => .error (.unhandled (.obj ms))

mutual

def nodeOfJson (path : String) : Json → Except Fault (List Node)
  | .obj ms =>
    if ((Members.get? ms "object").getD .null).isText "text" then textOfJson path (.obj ms)
    else do
      let type ← typeOf path ms
      let data ← dataOf type path (← dataMembers path ms)
      let nodes ← nodesIn path ms
      elementOf type path data nodes (Members.get? ms "text")
  | _ => .error (.notObject path)

def nodesIn (path : String) : List (String × Json) → Except Fault (List Node)
  | [] => .ok []
  | (name, v) :: ms => if name == "nodes" then nodesOf path v else nodesIn path ms

def nodesOf (path : String) : Json → Except Fault (List Node)
  | .null => .ok []
  | .arr vs => nodesFrom (if path == "" then "nodes" else path ++ ".nodes") 0 vs
  | _ => .error (.nodesNotList path)

def nodesFrom (start : String) : (i : Nat) → List Json → Except Fault (List Node)
  | _, [] => .ok []
  | i, v :: vs => do
    let node ← nodeOfJson (start ++ index i) v
    let nodes ← nodesFrom start (i + 1) vs
    .ok (node ++ nodes)

end

/-- The object that holds the nodes of a value: the value itself or the document in it. -/
def documentOf (v : Json) : Json :=
  match v.get? "document" with
  | some (.obj ms) => .obj ms
  | _ => v

def ofJson (v : Json) : Except Fault (List Node) :=
  match (documentOf v).get? "nodes" with
  | some (.arr vs) => nodesFrom "nodes" 0 vs
  | _ => .error .noNodes

end Canonmark.Editor
