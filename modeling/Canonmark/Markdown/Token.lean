import Canonmark.Event
import Canonmark.Json.Literal
import Canonmark.Node.Basic
import Canonmark.Text.CharacterReference

/-! The tokens of a markdown text, and their events. -/
namespace Canonmark.Markdown

inductive Wrapper where
  | paragraph | blockQuote | item | emph | strong
  deriving DecidableEq, Repr

inductive Verbatim where
  | code | htmlInline | htmlBlock
  deriving DecidableEq, Repr

inductive Sign where
  | thematicBreak | softbreak | linebreak
  deriving DecidableEq, Repr

inductive Reference where
  | link | image
  deriving DecidableEq, Repr

namespace Wrapper

def kind : Wrapper → Kind
  | paragraph => .paragraph
  | blockQuote => .blockQuote
  | item => .item
  | emph => .emph
  | strong => .strong

/-- The text of an item of a tight list is a paragraph. -/
def ofType? : String → Option Wrapper
  | "paragraph" | "block_text" => some paragraph
  | "block_quote" => some blockQuote
  | "list_item" => some item
  | "emphasis" => some emph
  | "strong" => some strong
  | _ => none

end Wrapper

namespace Verbatim

def kind : Verbatim → Kind
  | code => .code
  | htmlInline => .htmlInline
  | htmlBlock => .htmlBlock

def ofType? : String → Option Verbatim
  | "codespan" => some code
  | "inline_html" => some htmlInline
  | "block_html" => some htmlBlock
  | _ => none

end Verbatim

namespace Sign

def kind : Sign → Kind
  | thematicBreak => .thematicBreak
  | softbreak => .softbreak
  | linebreak => .linebreak

def ofType? : String → Option Sign
  | "thematic_break" => some thematicBreak
  | "softbreak" => some softbreak
  | "linebreak" => some linebreak
  | _ => none

end Sign

namespace Reference

def kind : Reference → Kind
  | link => .link
  | image => .image

def ofType? : String → Option Reference
  | "link" => some link
  | "image" => some image
  | _ => none

end Reference

structure Numbering where
  start : String
  paren : Bool
  deriving DecidableEq, Repr

inductive Flaw where
  /-- Members are needed where there are none. -/
  | noMembers
  /-- A value is of another type than the one that is needed. -/
  | wrongType
  /-- A number has more digits than one is written with. -/
  | longNumber
  deriving DecidableEq, Repr

/-- A token. The text of a `text` token still holds its character references. -/
inductive Token where
  | blankLine
  | wrapper (w : Wrapper) (content : List Token)
  | text (raw : String)
  | verbatim (v : Verbatim) (raw : String)
  | sign (s : Sign)
  | heading (level : String) (content : List Token)
  | list (numbering : Option Numbering) (tight : Bool) (items : List Token)
  | codeBlock (info raw : String)
  | reference (r : Reference) (destination title : Json) (content : List Token)
  /-- A leaf with content that is no text. -/
  | leafValue (kind : Kind) (attributes : Members) (value : Json)
  /-- A token of a type that has no events. -/
  | unsupported (type : Json)
  /-- A value that is no token. -/
  | misshapen (flaw : Flaw)
  deriving Inhabited, Repr

namespace Token

inductive Fault where
  | unsupported (type : Json)
  | misshapen (flaw : Flaw)
  deriving Repr

def Fault.message : Fault → String
  | .unsupported type => "Unsupported markdown token: " ++ type.shown
  | .misshapen .noMembers => "A token has no members"
  | .misshapen .wrongType => "A part of a token is of the wrong type"
  | .misshapen .longNumber => Text.Numeral.longMessage

mutual

/-- How deep emphasis, links and images are nested in a token of inline content. -/
def depth : Token → Nat
  | wrapper _ content | reference _ _ _ content => depthOf content + 1
  | _ => 0

def depthOf : List Token → Nat
  | [] => 0
  | t :: ts => max (depth t) (depthOf ts)

end

def decoded (raw : String) : String := String.ofList (Text.decodeReferences raw.toList)

/-- A value; the character references of a text are replaced. -/
def decodedValue : Json → Json
  | .str s => .str (decoded s)
  | v => v

def listAttributes (numbering : Option Numbering) (tight : Bool) : Members :=
  let type : Json := .str (if numbering.isSome then "ordered" else "bullet")
  let base := [("type", type), ("tight", .str (if tight then "true" else "false"))]
  match numbering with
  | none => base
  | some n =>
    base ++ [("start", .str n.start), ("delimiter", .str (if n.paren then "paren" else "period"))]

def infoAttributes (info : String) : Members :=
  let info := Text.trimString info
  if info == "" then [] else [("info", .str info)]

mutual

def events : Token → Except Fault (List Event)
  | blankLine => .ok []
  | wrapper w content => (eventsOf content).map (Event.element w.kind.elementName [])
  | text raw => .ok (Event.leaf Kind.text.elementName [] (decoded raw))
  | verbatim v raw => .ok (Event.leaf v.kind.elementName [] raw)
  | sign s => .ok (Event.element s.kind.elementName [] [])
  | heading level content =>
    (eventsOf content).map (Event.element Kind.heading.elementName [("level", .str level)])
  | list numbering tight items =>
    (eventsOf items).map (Event.element Kind.list.elementName (listAttributes numbering tight))
  | codeBlock info raw => .ok (Event.leaf Kind.codeBlock.elementName (infoAttributes info) raw)
  | reference r destination title content =>
    (eventsOf content).map (Event.element r.kind.elementName
      [("destination", destination), ("title", decodedValue title)])
  | leafValue kind attributes value =>
    .ok (Event.element kind.elementName attributes (Event.ofContent value))
  | unsupported type => .error (.unsupported type)
  | misshapen flaw => .error (.misshapen flaw)

def eventsOf : List Token → Except Fault (List Event)
  | [] => .ok []
  | t :: ts => do
    let first ← events t
    let others ← eventsOf ts
    pure (first ++ others)

end

def documentEvents (tokens : List Token) : Except Fault (List Event) :=
  (eventsOf tokens).map (Event.element Kind.document.elementName [("xmlns", .str defaultNamespace)])

/-- The value of a member; what is not there is the empty text. -/
def memberOr (ms : Members) (name : String) : Json := (ms.get? name).getD (.str "")

/-- A value in which character references are looked for: a text, or a list or an object that does
not hold their sign. -/
def searched (v : Json) : Except Flaw Json :=
  match v with
  | .str _ => .ok v
  | .arr vs => if vs.any (·.isText "&") then .error .wrongType else .ok v
  | .obj ms => if ms.any fun (name, _) => name == "&" then .error .wrongType else .ok v
  | _ => .error .wrongType

def titleOf (attributes : Members) : Except Flaw Json :=
  let v := memberOr attributes "title"
  if v.truthy then searched v else .ok (.str "")

def infoOf (attributes : Members) : Except Flaw String :=
  match memberOr attributes "info" with
  | .str s => .ok s
  | v => if v.truthy then .error .noMembers else .ok ""

def makeOf {α : Type} (part : Except Flaw α) (make : α → Token) : Token :=
  match part with
  | .ok a => make a
  | .error flaw => misshapen flaw

/-- A member as text; one that is not given counts as `missing`. -/
def plainMember (ms : Members) (name missing : String) : Except Flaw String :=
  match ms.get? name with
  | none => .ok missing
  | some v => if v.holdsLong then .error .longNumber else .ok v.plain

def membersOf? (v : Option Json) : Option Members :=
  match v with
  | some (.obj ms) => some ms
  | some v => if v.truthy then none else some []
  | none => some []

def isTight (ms attributes : Members) : Bool :=
  match ms.get? "tight" with
  | some v => v.truthy
  | none => ((attributes.get? "tight").map Json.truthy).getD true

def numbering (ms attributes : Members) : Except Flaw (Option Numbering) :=
  if ((attributes.get? "ordered").map Json.truthy).getD false then
    (plainMember attributes "start" "1").map fun start =>
      some ⟨start, ((ms.get? "bullet").map (·.isText ")")).getD false⟩
  else .ok none

/-- A token with attributes, given its members and its content; nothing if its type has none. -/
def ofAttributes? (type : String) (ms attributes : Members)
    (content : Except Flaw (List Token)) : Option Token :=
  match Reference.ofType? type, type with
  | some r, _ =>
    some (makeOf (titleOf attributes) fun title =>
      makeOf content (reference r (memberOr attributes "url") title))
  | none, "heading" =>
    some (makeOf (plainMember attributes "level" "1") fun level => makeOf content (heading level))
  | none, "list" =>
    some (makeOf (numbering ms attributes) fun numbering =>
      makeOf content (list numbering (isTight ms attributes)))
  | none, "block_code" =>
    some (makeOf (infoOf attributes) fun info =>
      match memberOr ms "raw" with
      | .str raw => codeBlock info raw
      | v => leafValue .codeBlock (infoAttributes info) v)
  | none, _ => none

/-- A token of a type, given its members and its content. Attributes matter only where there can be
some. -/
def ofParts (type : String) (ms : Members) (content : Except Flaw (List Token)) : Token :=
  match Wrapper.ofType? type, Verbatim.ofType? type, Sign.ofType? type with
  | some w, _, _ => makeOf content (wrapper w)
  | _, some v, _ =>
    match memberOr ms "raw" with
    | .str raw => verbatim v raw
    | value => leafValue v.kind [] value
  | _, _, some s => sign s
  | none, none, none =>
    match type with
    | "blank_line" => blankLine
    | "text" =>
      makeOf (searched (memberOr ms "raw")) fun
        | .str raw => text raw
        | value => leafValue .text [] value
    | type =>
      let attributes? := membersOf? (ms.lookup "attrs")
      match ofAttributes? type ms (attributes?.getD []) content with
      | none => unsupported (.str type)
      | some t => if attributes?.isSome then t else misshapen .noMembers

mutual

def ofJson : Json → Token
  | .obj ms =>
    match (ms.lookup "type").getD (.str "") with
    | .str type => ofParts type ms (contentOf ms)
    | type =>
      if type.isComposite then misshapen .wrongType
      else if type.holdsLong then misshapen .longNumber
      else unsupported type
  | _ => misshapen .noMembers

def contentOf : List (String × Json) → Except Flaw (List Token)
  | [] => .ok []
  | (name, v) :: ms => if name == "children" then listOf v else contentOf ms

/-- The tokens of a list; nothing that is empty holds any. -/
def listOf : Json → Except Flaw (List Token)
  | .arr vs => .ok (ofJsons vs)
  | v =>
    if !v.truthy then .ok []
    else match v with
      | .str _ | .obj _ => .error .noMembers
      | _ => .error .wrongType

def ofJsons : List Json → List Token
  | [] => []
  | v :: vs => ofJson v :: ofJsons vs

end

/-- The tokens of a document; a value that is no list holds none. -/
def tokensOf : Json → List Token
  | .arr vs => ofJsons vs
  | _ => []

end Token
end Canonmark.Markdown
