import Canonmark.Fault
import Canonmark.Json.Printer
import Canonmark.Json.Reader
import Canonmark.Markdown.Reader
import Canonmark.Source

/-! Conversions between markdown, trees and their JSON form. -/
namespace Canonmark

def treeOfJson (v : Json) : Except Fault Node := (Schema.ofJson v).mapError .schema

/-- The JSON form of a typed tree, which must hold no foreign value. -/
def treeToJson (n : Node) : Except Fault Json :=
  match Schema.foreign? n with
  | some v => .error (.notCanonical v.typeName)
  | none => .ok (Schema.toJson n)

def treeOfText (text : String) : Except Fault Node :=
  match Json.ofText? text with
  | some v => treeOfJson v
  | none => .error .jsonSyntax

def treeToText (n : Node) (indent : Json.Indent) : Except Fault String :=
  (treeToJson n).map (·.toText indent)

def documentOfJson (v : Json) : Except Fault Node := do
  match ← treeOfJson v with
  | .branch (.document xmlns) span children => pure (.branch (.document xmlns) span children)
  | n => throw (.rootNotDocument n.typeName)

def classTagOf (n : Node) : Except Fault String :=
  match n.kind? with
  | some kind => .ok kind.classTag
  | none => .error (.notCanonical n.typeName)

/-- Refuses options of a class that does not refine the expected one. -/
def expectOptions (converter : String) (expected : OptionClass) (o : Options) :
    Except Fault Options :=
  if o.cls.refines expected then .ok o else .error (.wrongOptions converter expected o.cls)

def mergeOptions (c : OptionClass) (base : Option Options) (overrides : Members) :
    Except Fault Options :=
  (Options.merge c base overrides).mapError .options

def styleOf (o : Option Options) : Except Fault Style :=
  match o with
  | none => .ok {}
  | some o => do
    let o ← expectOptions "markdown" .markdownRenderer o
    pure o.style

/-- What a writer is given: a typed tree, or a JSON value in place of one. -/
inductive WriterInput where
  | tree (n : Node)
  | value (v : Json)

/-- The document that is to be written. An object is read as a tree first. -/
def WriterInput.node : WriterInput → Except Fault Node
  | .tree n => .ok n
  | .value (.obj ms) => treeOfJson (.obj ms)
  | .value v => .ok (.foreign v)

def toMarkdown (input : WriterInput) (options : Option Options) (overrides : Members) :
    Except Fault String := do
  let o ← mergeOptions .markdownRenderer options overrides
  let style ← styleOf (some o)
  let n ← input.node
  (Markdown.write style n).mapError .write

/-- The text of a source of which the encoding is not guessed. -/
def loadText (source : Source) : Except Fault String :=
  (source.load fun _ => none).mapError .input

/-- The editor value of a source: an object itself, or the value of its JSON text. -/
def editorValue : Source → Except Fault Json
  | .value (.obj ms) => .ok (.obj ms)
  | source => do
    match Json.ofText? (← loadText source) with
    | some v => pure v
    | none => throw .editorSyntax

def editorOptions (o : Option Options) : Except Fault ReaderOptions :=
  match o with
  | none => .ok {}
  | some o => (expectOptions "editor" .editorParser o).map Options.reader

def textRules (o : Option Options) : Option TextRules :=
  match o with
  | none => some {}
  | some o =>
    if o.cls.refines .markdownParser then some ⟨o.reader.trimText, o.reader.tagInfo⟩ else none

def buildTree (events : List Event) (options : Option Options) : Except Fault Json :=
  (Builder.build (textRules options) events).mapError .builder

def tokenEvents (tokens : List Markdown.Token) : Except Fault (List Event) :=
  (Markdown.Token.documentEvents tokens).mapError .token

def markdownEvents (text : String) : Except Fault (List Event) :=
  tokenEvents (Markdown.Reader.tokens text.toList)

def markdownOptions (converter : String) (o : Option Options) : Except Fault Options :=
  match o with
  | none => (Options.construct .markdownParser []).mapError .options
  | some o => expectOptions converter .markdownParser o

/-- The JSON form of the tree of a source, not yet checked. -/
def markdownTree (o : Options) (source : Source) : Except Fault Json := do
  let events ← markdownEvents (← loadText source)
  buildTree events (some o)

/-- The tree itself, if it passes the checks that are asked for. -/
def checked (o : ReaderOptions) (tree : Json) : Except Fault Json :=
  if o.validate then (documentOfJson tree).map fun _ => tree else .ok tree

def markdownToJson (source : Source) (options : Option Options) (overrides : Members) :
    Except Fault Json := do
  let o ← markdownOptions "markdown" (some (← mergeOptions .markdownParser options overrides))
  checked o.reader (← markdownTree o source)

def fromMarkdown (source : Source) (options : Option Options) (overrides : Members) :
    Except Fault Node := do
  let o ← markdownOptions "markdown" (some (← mergeOptions .markdownParser options overrides))
  documentOfJson (← markdownTree o source)

/-- A markdown text in the one style of the writer. -/
def normalizeMarkdown (source : Source) (reading writing : Option Options) : Except Fault String :=
  do
  let n ← fromMarkdown source reading []
  toMarkdown (.tree n) writing []

def xmlEvents (xml : String) : Except Fault (List Event) :=
  let r := Xml.read xml.toList
  match r.refusal with
  | some f => .error (.xml f)
  | none => .ok r.events

/-- The JSON form of the tree of an XML document, not yet checked. A fault of the tree that lies
before a fault of the document comes first. -/
def xmlTree (o : Options) (xml : String) : Except Fault Json :=
  let r := Xml.read xml.toList
  match Builder.feed (textRules (some o)) [] r.events, r.refusal with
  | (_, some f), _ => .error (.builder f)
  | (_, none), some f => .error (.xml f)
  | (stack, none), none => (Builder.result stack).mapError .builder

def xmlToJson (xml : String) (options : Option Options) : Except Fault Json := do
  let o ← markdownOptions "commonmark_xml" options
  checked o.reader (← xmlTree o xml)

def fromXml (xml : String) (options : Option Options) (overrides : Members) : Except Fault Node :=
  do
  let o ← mergeOptions .markdownParser options overrides
  let o ← markdownOptions "commonmark_xml" (some o)
  documentOfJson (← xmlTree o xml)

def editorTree (source : Source) : Except Fault Json := do
  let v ← editorValue source
  let nodes ← (Editor.ofJson v).mapError .editor
  (Editor.document nodes).mapError .mapping

def editorToJson (source : Source) (options : Option Options) (overrides : Members) :
    Except Fault Json := do
  let o ← editorOptions (some (← mergeOptions .editorParser options overrides))
  checked o (← editorTree source)

def fromEditor (source : Source) (options : Option Options) (overrides : Members) :
    Except Fault Node := do
  let _ ← editorOptions (some (← mergeOptions .editorParser options overrides))
  documentOfJson (← editorTree source)

def editorToMarkdown (source : Source) (reading writing : Option Options) : Except Fault String :=
  do
  let n ← fromEditor source reading []
  toMarkdown (.tree n) writing []

/-- Nodes in document order, parents first. -/
def preorder : Node → List Node
  | .branch c span children => .branch c span children :: preorderAll children
  | n => [n]
where
  preorderAll : List Node → List Node
    | [] => []
    | n :: ns => preorder n ++ preorderAll ns

end Canonmark
