import Canonmark.Json.Literal
import Canonmark.Node.Basic

/-! The JSON form of trees: every node is an object tagged with its class. Reading it checks
classes, properties, positions and children, and says where the first fault lies. -/
namespace Canonmark.Schema

def classKey : String := "$class"

def spanKey : String := "sourcepos"

def childrenKey : String := "nodes"

/-- Where a value stands: below the children with these indices, from the root on, and there
perhaps in the tag or in one of its attributes. -/
inductive Part where
  | node
  | tag
  | attributeAt (index : Nat)
  deriving DecidableEq, Repr

structure Place where
  indices : List Nat := []
  part : Part := .node
  deriving DecidableEq, Repr

namespace Place

def root : Place := {}

def child (p : Place) (index : Nat) : Place := { p with indices := p.indices ++ [index] }

def number (n : Nat) : String := String.ofList (Text.Numeral.ofNat n)

def step (index : Nat) : String := ".nodes[" ++ number index ++ "]"

def text (p : Place) : String :=
  let tail := match p.part with
    | .node => ""
    | .tag => ".tag"
    | .attributeAt i => ".tag.attributes[" ++ number i ++ "]"
  "$" ++ String.join (p.indices.map step) ++ tail

end Place

inductive Reason where
  | notObject (typeName : String)
  | noClass
  | unknownClass (tag : Json)
  | compositeClass
  | unknownProperties (kind : Kind) (first : String) (others : List String)
  | missingProperty (kind : Kind) (name : String)
  | notText (name : String) (typeName : String)
  | tagNotObject
  | tagOfClass (tag : Json)
  | tagWithoutName
  | attributesNotList
  | attributeNotObject
  | closedNotBoolean
  | badSpan (kind : Kind) (refusal : Span.Refusal)
  | childrenNotList
  | badLevel (kind : Kind) (text : String)
  deriving Repr

structure Fault where
  place : Place
  reason : Reason
  deriving Repr

namespace Fault

def message (f : Fault) : String :=
  let place := f.place.text
  match f.reason with
  | .notObject t => "Node at " ++ place ++ " must be an object, got " ++ t
  | .noClass => "Node at " ++ place ++ " has no '$class'"
  | .unknownClass tag => "Unknown class " ++ tag.shown ++ " at " ++ place
  | .compositeClass => "The class at " ++ place ++ " is a list or an object"
  | .unknownProperties kind first others =>
    "Unknown propert" ++ (if others.isEmpty then "y " else "ies ") ++ String.intercalate ", "
      ((first :: others).map Text.Quoted.quoted) ++ " on " ++ kind.classTag ++ " at " ++ place
  | .missingProperty kind name =>
    "Missing required property '" ++ name ++ "' on " ++ kind.classTag ++ " at " ++ place
  | .notText name t => "Property '" ++ name ++ "' at " ++ place ++ " must be a string, got " ++ t
  | .tagNotObject => "Tag info at " ++ place ++ " must be an object"
  | .tagOfClass tag => "Tag info at " ++ place ++ " has class " ++ tag.shown
  | .tagWithoutName => "Tag info at " ++ place ++ " is missing 'tagName'"
  | .attributesNotList => "Property 'attributes' at " ++ place ++ " must be a list"
  | .attributeNotObject => "Attribute at " ++ place ++ " must be an object"
  | .closedNotBoolean => "Property 'closed' at " ++ place ++ " must be a boolean"
  | .badSpan kind refusal => refusal.message ++ " on " ++ kind.classTag ++ " at " ++ place
  | .childrenNotList => "Property 'nodes' at " ++ place ++ " must be a list"
  | .badLevel kind text =>
    "Invalid " ++ kind.classTag ++ " at " ++ place ++ ": Heading level must be '1'-'6', got " ++
      Text.Quoted.quoted text

def parameter (f : Fault) : Option String :=
  match f.reason with
  | .noClass | .unknownClass _ => some classKey
  | .unknownProperties _ first _ => some first
  | .missingProperty _ name | .notText name _ => some name
  | .tagNotObject | .tagOfClass _ => some "tag"
  | .tagWithoutName => some "tagName"
  | .attributesNotList => some "attributes"
  | .closedNotBoolean => some "closed"
  | .badSpan .. => some spanKey
  | .childrenNotList => some childrenKey
  | .notObject _ | .compositeClass | .attributeNotObject | .badLevel .. => none

/-- Whether a fault was found while a text was read as a number. -/
def hasValueCause (f : Fault) : Bool :=
  match f.reason with
  | .badSpan .. | .badLevel .. => true
  | _ => false

end Fault

def textMember (name : String) (value : String) : List (String × Json) := [(name, .str value)]

def optionalMember (name : String) : Option String → List (String × Json)
  | none => []
  | some value => [(name, .str value)]

def attributeToJson (a : Attribute) : Json :=
  .obj [(classKey, .str ClassTag.htmlAttribute), ("name", .str a.name), ("value", .str a.value)]

def tagToJson (t : TagInfo) : Json :=
  .obj [(classKey, .str ClassTag.tagInfo), ("tagName", .str t.tagName), ("attributeString",
    .str t.attributeString), ("attributes", .arr (t.attributes.map attributeToJson)),
    ("content", .str t.content), ("closed", .bool t.closed)]

def tagMember : Option TagInfo → List (String × Json)
  | none => []
  | some t => [("tag", tagToJson t)]

def leafMembers : Leaf → List (String × Json)
  | .codeBlock text info tag =>
    textMember "text" text ++ optionalMember "info" info ++ tagMember tag
  | .htmlBlock text tag | .htmlInline text tag => textMember "text" text ++ tagMember tag
  | .text text | .code text => textMember "text" text
  | .thematicBreak | .softbreak | .linebreak => []

def containerMembers : Container → List (String × Json)
  | .document xmlns => textMember "xmlns" xmlns
  | .heading level => textMember "level" level.text
  | .list l =>
    textMember "type" l.listType ++ optionalMember "start" l.start ++
      optionalMember "tight" l.tight ++ optionalMember "delimiter" l.delimiter
  | .link destination title | .image destination title =>
    textMember "destination" destination ++ textMember "title" title
  | .clause clauseid src clauseText =>
    textMember "clauseid" clauseid ++ textMember "src" src ++ optionalMember "clauseText" clauseText
  | .templateVariable id value => textMember "id" id ++ textMember "value" value
  | .computedVariable value => textMember "value" value
  | .paragraph | .blockQuote | .item | .emph | .strong => []

def spanMember : Option Span → List (String × Json)
  | none => []
  | some s => [(spanKey, .str s.toText)]

mutual

/-- The JSON form of a tree; foreign values stay as they are. -/
def toJson : Node → Json
  | .leaf l span =>
    .obj ((classKey, .str l.kind.classTag) :: leafMembers l ++ spanMember span)
  | .branch c span children =>
    .obj ((classKey, .str c.kind.classTag) :: containerMembers c ++ spanMember span ++
      [(childrenKey, .arr (toJsonList children))])
  | .foreign v => v

def toJsonList : List Node → List Json
  | [] => []
  | n :: ns => toJson n :: toJsonList ns

end

mutual

/-- The first foreign value in document order. -/
def foreign? : Node → Option Json
  | .leaf .. => none
  | .branch _ _ children => foreignIn? children
  | .foreign v => some v

def foreignIn? : List Node → Option Json
  | [] => none
  | n :: ns => foreign? n <|> foreignIn? ns

end

def fail {α : Type} (place : Place) (reason : Reason) : Except Fault α :=
  .error ⟨place, reason⟩

def requireText (place : Place) (name : String) : Json → Except Fault String
  | .str s => .ok s
  | v => fail place (.notText name v.typeName)

def optional (place : Place) (ms : Members) (name : String) : Except Fault (Option String) :=
  match ms.given? name with
  | none => .ok none
  | some v => (requireText place name v).map some

def required (place : Place) (kind : Kind) (ms : Members) (name : String) :
    Except Fault String :=
  match ms.given? name with
  | none => fail place (.missingProperty kind name)
  | some v => requireText place name v

def withDefault (place : Place) (ms : Members) (name default : String) : Except Fault String :=
  (optional place ms name).map (·.getD default)

def attributeOfJson (place : Place) : Json → Except Fault Attribute
  | .obj ms => do
    let name ← requireText place "name" ((Members.get? ms "name").getD .null)
    let value ← requireText place "value" ((Members.get? ms "value").getD .null)
    .ok ⟨name, value⟩
  | _ => fail place .attributeNotObject

def attributesOfJson (place : Place) : (index : Nat) → List Json → Except Fault (List Attribute)
  | _, [] => .ok []
  | i, v :: vs => do
    let a ← attributeOfJson { place with part := .attributeAt i } v
    let as ← attributesOfJson place (i + 1) vs
    .ok (a :: as)

/-- A tag may name its class. -/
def checkTagClass (place : Place) (ms : Members) : Except Fault Unit :=
  match ms.get? classKey with
  | none => .ok ()
  | some tag => if tag.isText ClassTag.tagInfo then .ok () else fail place (.tagOfClass tag)

def tagNameOf (place : Place) (ms : Members) : Except Fault Json :=
  match ms.get? "tagName" with
  | none => fail place .tagWithoutName
  | some v => .ok v

def tagAttributes (place : Place) (ms : Members) : Except Fault (List Attribute) :=
  match ms.get? "attributes" with
  | none => .ok []
  | some (.arr vs) => attributesOfJson place 0 vs
  | some _ => fail place .attributesNotList

def closedOf (place : Place) (ms : Members) : Except Fault Bool :=
  match ms.get? "closed" with
  | none => .ok false
  | some (.bool b) => .ok b
  | some _ => fail place .closedNotBoolean

/-- A text of a tag; a missing one is empty. -/
def tagText (place : Place) (ms : Members) (name : String) : Except Fault String :=
  requireText place name ((ms.get? name).getD (.str ""))

/-- Reads the tag of a node at `place`. Whether the name is a text is checked after its presence. -/
def tagOfJson (place : Place) (v : Json) : Except Fault TagInfo :=
  let place := { place with part := .tag }
  match v with
  | .obj ms => do
    checkTagClass place ms
    let name ← tagNameOf place ms
    let attributes ← tagAttributes place ms
    let closed ← closedOf place ms
    let tagName ← requireText place "tagName" name
    let attributeString ← tagText place ms "attributeString"
    let content ← tagText place ms "content"
    .ok { tagName, attributeString, attributes, content, closed }
  | _ => fail place .tagNotObject

def optionalTag (place : Place) (ms : Members) : Except Fault (Option TagInfo) :=
  match ms.given? "tag" with
  | none => .ok none
  | some v => (tagOfJson place v).map some

def kindOf (place : Place) (ms : Members) : Except Fault Kind :=
  match ms.given? classKey with
  | none => fail place .noClass
  | some (.str tag) =>
    match Kind.ofClassTag? tag with
    | some kind => .ok kind
    | none => fail place (.unknownClass (.str tag))
  | some v => if v.isComposite then fail place .compositeClass else fail place (.unknownClass v)

/-- The names that an object of a kind may hold. -/
def allowed (kind : Kind) : List String :=
  classKey :: spanKey :: kind.properties ++ (if kind.hasChildren then [childrenKey] else [])

def checkNames (place : Place) (kind : Kind) (ms : Members) : Except Fault Unit :=
  match ms.names.filter fun n => !(allowed kind).contains n with
  | [] => .ok ()
  | first :: others => fail place (.unknownProperties kind first others)

/-- The properties of a node as they are read: those of a heading are checked only after its
children. -/
inductive Draft where
  | leaf (l : Leaf)
  | container (c : Container)
  | heading (level : String)

def draftOf (place : Place) (kind : Kind) (ms : Members) : Except Fault Draft :=
  match kind with
  | .document => do
    let xmlns ← withDefault place ms "xmlns" defaultNamespace
    .ok (.container (.document xmlns))
  | .paragraph => .ok (.container .paragraph)
  | .heading => do
    let level ← required place kind ms "level"
    .ok (.heading level)
  | .blockQuote => .ok (.container .blockQuote)
  | .list => do
    let listType ← required place kind ms "type"
    let start ← optional place ms "start"
    let tight ← optional place ms "tight"
    let delimiter ← optional place ms "delimiter"
    .ok (.container (.list { listType, start, tight, delimiter }))
  | .item => .ok (.container .item)
  | .codeBlock => do
    let text ← withDefault place ms "text" ""
    let info ← optional place ms "info"
    let tag ← optionalTag place ms
    .ok (.leaf (.codeBlock text info tag))
  | .htmlBlock => do
    let text ← withDefault place ms "text" ""
    let tag ← optionalTag place ms
    .ok (.leaf (.htmlBlock text tag))
  | .thematicBreak => .ok (.leaf .thematicBreak)
  | .text => do
    let text ← withDefault place ms "text" ""
    .ok (.leaf (.text text))
  | .emph => .ok (.container .emph)
  | .strong => .ok (.container .strong)
  | .code => do
    let text ← withDefault place ms "text" ""
    .ok (.leaf (.code text))
  | .link => do
    let destination ← required place kind ms "destination"
    let title ← required place kind ms "title"
    .ok (.container (.link destination title))
  | .image => do
    let destination ← required place kind ms "destination"
    let title ← required place kind ms "title"
    .ok (.container (.image destination title))
  | .htmlInline => do
    let text ← withDefault place ms "text" ""
    let tag ← optionalTag place ms
    .ok (.leaf (.htmlInline text tag))
  | .softbreak => .ok (.leaf .softbreak)
  | .linebreak => .ok (.leaf .linebreak)
  | .clause => do
    let clauseid ← required place kind ms "clauseid"
    let src ← required place kind ms "src"
    let clauseText ← optional place ms "clauseText"
    .ok (.container (.clause clauseid src clauseText))
  | .templateVariable => do
    let id ← required place kind ms "id"
    let value ← required place kind ms "value"
    .ok (.container (.templateVariable id value))
  | .computedVariable => do
    let value ← required place kind ms "value"
    .ok (.container (.computedVariable value))

def spanOf (place : Place) (kind : Kind) (ms : Members) : Except Fault (Option Span) :=
  match ms.given? spanKey with
  | none => .ok none
  | some v => do
    let text ← requireText place spanKey v
    match Span.ofText text with
    | .ok span => .ok (some span)
    | .error refusal => fail place (.badSpan kind refusal)

def Draft.complete (place : Place) (span : Option Span) (children : List Node) :
    Draft → Except Fault Node
  | .leaf l => .ok (.leaf l span)
  | .container c => .ok (.branch c span children)
  | .heading level =>
    match Level.ofText? level with
    | some l => .ok (.branch (.heading l) span children)
    | none => fail place (.badLevel .heading level)

mutual

def nodeOfJson (place : Place) : Json → Except Fault Node
  | .obj ms => do
    let kind ← kindOf place ms
    checkNames place kind ms
    let draft ← draftOf place kind ms
    let span ← spanOf place kind ms
    let children ← if kind.hasChildren then childrenOf place ms else .ok []
    draft.complete place span children
  | v => fail place (.notObject v.typeName)

def childrenOf (place : Place) : List (String × Json) → Except Fault (List Node)
  | [] => .ok []
  | (name, v) :: ms => if name == childrenKey then childList place v else childrenOf place ms

def childList (place : Place) : Json → Except Fault (List Node)
  | .arr vs => nodesOfJson place 0 vs
  | _ => fail place .childrenNotList

/-- Reads the children from the one with the given index on. -/
def nodesOfJson (place : Place) : (index : Nat) → List Json → Except Fault (List Node)
  | _, [] => .ok []
  | i, v :: vs => do
    let n ← nodeOfJson (place.child i) v
    let ns ← nodesOfJson place (i + 1) vs
    .ok (n :: ns)

end

def ofJson (v : Json) : Except Fault Node := nodeOfJson .root v

end Canonmark.Schema
