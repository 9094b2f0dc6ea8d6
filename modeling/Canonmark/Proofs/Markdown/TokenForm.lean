import Canonmark.Markdown.Token
import Canonmark.Proofs.Builder.Frame
import Canonmark.Proofs.Json.Fold

/-! Tokens in their JSON form: what they hold, which of them a walk reaches, which it refuses, and
the nodes that they stand for. -/
namespace Canonmark.Markdown.TokenForm

/-- The type of a token. One that has none is of the empty type. -/
def typeOf (ms : Members) : Json := (ms.get? "type").getD (.str "")

def attributesOf (ms : Members) : Members :=
  match ms.get? "attrs" with
  | some (.obj attributes) => attributes
  | _ => []

def childTokens (ms : Members) : List Json := Json.itemsAt "children" ms

/-- The text of a name; what is no text counts as an empty one. -/
def textAt (ms : Members) (name : String) : String := (ms.text? name).getD ""

/-- What a token holds, apart from its children. -/
structure Shape (ms : Members) : Prop where
  raw : ∀ v, ms.get? "raw" = some v → ∃ s, v = .str s
  attributes : ∀ v, ms.get? "attrs" = some v → v = .null ∨ ∃ attributes, v = .obj attributes
  children : ∀ v, ms.get? "children" = some v → v = .null ∨ ∃ vs, v = .arr vs
  level : typeOf ms = .str "heading" →
    ∀ v, (attributesOf ms).get? "level" = some v → ∃ l : Level, v = .int l.number
  target : typeOf ms = .str "link" ∨ typeOf ms = .str "image" →
    (∀ v, (attributesOf ms).get? "url" = some v → ∃ s, v = .str s) ∧
      ∀ v, (attributesOf ms).given? "title" = some v → ∃ s, v = .str s
  info : typeOf ms = .str "block_code" →
    ∀ v, (attributesOf ms).given? "info" = some v → ∃ s, v = .str s

/-- A value that is a token with tokens below it. -/
inductive Shaped : Json → Prop
  | token {ms : Members} (shape : Shape ms) (below : ∀ v ∈ childTokens ms, Shaped v) :
      Shaped (.obj ms)

/-- Types of tokens whose children are looked at. -/
def wrapperTypes : List String :=
  ["paragraph", "block_text", "block_quote", "list_item", "emphasis", "strong", "heading", "list",
    "link", "image"]

/-- Types of tokens whose children, if they have any, are not looked at. -/
def leafTypes : List String :=
  ["blank_line", "text", "codespan", "inline_html", "block_html", "block_code", "thematic_break",
    "softbreak", "linebreak"]

/-- Tokens of such a type have a meaning. -/
def Handled (type : Json) : Prop := (wrapperTypes ++ leafTypes).any type.isText

instance : DecidablePred Handled :=
  fun type => inferInstanceAs (Decidable ((wrapperTypes ++ leafTypes).any type.isText))

theorem isText_iff {v : Json} {s : String} : v.isText s ↔ v = .str s := by
  cases v <;> simp [Json.isText]

theorem handled_iff {type : Json} :
    Handled type ↔ ∃ t ∈ wrapperTypes ++ leafTypes, type = .str t := by
  rw [Handled, List.any_eq_true]
  simp only [isText_iff]

def reachedOfToken (ms : Members) (below : List Members) : List Members :=
  ms :: if wrapperTypes.any (typeOf ms).isText then below else []

/-- The tokens that a walk reaches, in its order: a token before those below it. -/
def reached (tokens : List Json) : List Members := Json.foldAll "children" reachedOfToken tokens

def isOrdered (ms : Members) : Bool :=
  (((attributesOf ms).get? "ordered").map Json.truthy).getD false

/-- Whether a token is an ordered list with a start that is too long to be shown. -/
def startsLong (ms : Members) : Bool :=
  (typeOf ms).isText "list" && isOrdered ms && ((attributesOf ms).get? "start").any Json.holdsLong

/-- Why a token has no events. Types are looked up by name, as a list or an object cannot be. A type
without meaning is shown in the message about it. -/
def refusal? (ms : Members) : Option Token.Fault :=
  if Handled (typeOf ms) then
    if startsLong ms then some (.misshapen .longNumber) else none
  else if (typeOf ms).isComposite then some (.misshapen .wrongType)
  else if (typeOf ms).holdsLong then some (.misshapen .longNumber)
  else some (.unsupported (typeOf ms))

/-- A node with children. -/
def branch (kind : Kind) (properties : Members) (children : List Json) : List Json :=
  [.obj ((Schema.classKey, .str kind.classTag) :: properties ++ Schema.childrenMember children)]

/-- A node with a text, which is left out if it is empty. -/
def leaf (kind : Kind) (properties : Members) (text : String) : List Json :=
  [.obj ((Schema.classKey, .str kind.classTag) :: properties ++
    if text = "" then [] else [("text", .str text)])]

/-- A value as text, or another text if there is no value. -/
def shownOr (v : Option Json) (missing : String) : String := (v.map Json.plain).getD missing

/-- The properties of a list. The flag of a tight list stands in the token itself or among its
attributes. -/
def listProperties (ms : Members) : Members :=
  let attributes := attributesOf ms
  let tight := (((ms.get? "tight").or (attributes.get? "tight")).map Json.truthy).getD true
  let paren := ((ms.get? "bullet").map (·.isText ")")).getD false
  [("type", .str (if isOrdered ms then "ordered" else "bullet")),
    ("tight", .str (if tight then "true" else "false"))] ++
  if isOrdered ms then
    [("start", .str (shownOr (attributes.get? "start") "1")),
      ("delimiter", .str (if paren then "paren" else "period"))]
  else []

/-- The properties of a block of code: its info, if there is any besides blanks. -/
def codeProperties (ms : Members) : Members :=
  let info := Text.trimString (textAt (attributesOf ms) "info")
  if info = "" then [] else [("info", .str info)]

def targetProperties (ms : Members) : Members :=
  [("destination", .str (textAt (attributesOf ms) "url")),
    ("title", .str (Token.decoded (textAt (attributesOf ms) "title")))]

/-- The nodes of a token, given those of its children: none for a blank line, else one. -/
def nodesOfToken (ms : Members) (below : List Json) : List Json :=
  match typeOf ms with
  | .str "paragraph" | .str "block_text" => branch .paragraph [] below
  | .str "block_quote" => branch .blockQuote [] below
  | .str "list_item" => branch .item [] below
  | .str "emphasis" => branch .emph [] below
  | .str "strong" => branch .strong [] below
  | .str "heading" =>
    branch .heading [("level", .str (shownOr ((attributesOf ms).get? "level") "1"))] below
  | .str "list" => branch .list (listProperties ms) below
  | .str "link" => branch .link (targetProperties ms) below
  | .str "image" => branch .image (targetProperties ms) below
  | .str "text" => leaf .text [] (Token.decoded (textAt ms "raw"))
  | .str "codespan" => leaf .code [] (textAt ms "raw")
  | .str "inline_html" => leaf .htmlInline [] (textAt ms "raw")
  | .str "block_html" => leaf .htmlBlock [] (textAt ms "raw")
  | .str "block_code" => leaf .codeBlock (codeProperties ms) (textAt ms "raw")
  | .str "thematic_break" => leaf .thematicBreak [] ""
  | .str "softbreak" => leaf .softbreak [] ""
  | .str "linebreak" => leaf .linebreak [] ""
  | _ => []

/-- The nodes of tokens, in the order of the tokens. -/
def nodesOf (tokens : List Json) : List Json := Json.foldAll "children" nodesOfToken tokens

/-- The tree of a document with the given tokens. -/
def documentTree (tokens : List Json) : Json :=
  .obj ([(Schema.classKey, .str Kind.document.classTag), ("xmlns", .str defaultNamespace)] ++
    Schema.childrenMember (nodesOf tokens))

end Canonmark.Markdown.TokenForm
