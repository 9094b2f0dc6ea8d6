import Canonmark.Event
import Canonmark.Xml.Doctype
import Canonmark.Xml.Namespace

/-! XML documents as event streams. The text of an element is the text before its first child, and
is told when the element ends. -/
namespace Canonmark.Xml

/-- An element in progress: its name as it is written and as it is told, its text so far, whether it
has a child, and the scope inside it. -/
structure OpenElement where
  name : Name
  text : Chars := []
  hasChild : Bool := false
  scope : Scope

/-- The elements in progress, the innermost first, and the events told so far, the latest first. -/
structure Walk where
  elements : List OpenElement := []
  events : List Event := []
  deriving Inhabited

namespace Walk

def rootName : Chars := "document".toList

/-- The attributes of an element, and its namespace if it has the name of the root. -/
def eventAttributes (base space : Chars) (as : List (String × String)) : Members :=
  let as := as.map fun (n, v) => (n, Json.str v)
  if base == rootName && !space.isEmpty then as ++ [("xmlns", .str (String.ofList space))] else as

def hasDuplicates (as : List String) : Bool :=
  match as with
  | [] => false
  | a :: as => as.contains a || hasDuplicates as

def markChild : List OpenElement → List OpenElement
  | [] => []
  | e :: es => { e with hasChild := true } :: es

def openTag (d : Doctype) (w : Walk) (t : Tag) : Option Walk := do
  let scope := (w.elements.head?.map OpenElement.scope).getD Scope.initial
  if hasDuplicates (t.attributes.map fun a => String.ofList a.name.written) then none
  let as := d.complete t.name t.attributes
  let scope ← scope.extend as
  let space ← scope.space? t.name.space
  let attributes ← scope.attributes? as
  if hasDuplicates (attributes.map Prod.fst) then none
  let base := String.ofList t.name.base
  let opened := Event.openTag base (eventAttributes t.name.base space attributes) :: w.events
  if t.empty then some { elements := markChild w.elements, events := .closeTag base :: opened }
  else some { elements := { name := t.name, scope } :: markChild w.elements, events := opened }

def closeTag (w : Walk) (n : Name) : Option Walk :=
  match w.elements with
  | [] => none
  | e :: es =>
    if e.name != n then none
    else
      let told := if e.text.isEmpty then w.events else .text (String.ofList e.text) :: w.events
      some { elements := es, events := .closeTag (String.ofList n.base) :: told }

/-- Adds text to the innermost element, unless it has a child already. -/
def addText (w : Walk) (text : Chars) : Walk :=
  match w.elements with
  | [] => w
  | e :: es =>
    if e.hasChild then w else { w with elements := { e with text := e.text ++ text } :: es }

def step (d : Doctype) (w : Walk) : Chars → Option (Walk × Chars)
  | [] => none
  | '<' :: '/' :: s => do
    let (n, rest) ← endTag? s
    some (← w.closeTag n, rest)
  | '<' :: s =>
    match afterRemark? s, data? s with
    | some rest, _ => some (w, rest)
    | none, some (text, rest) => some (w.addText text, rest)
    | none, none => do
      let (t, rest) ← tag? d.isLenient s
      some (← w.openTag d t, rest)
  | '&' :: s => (reference? false s).map fun (text, rest) => (w.addText text, rest)
  | s =>
    let text := s.takeWhile fun c => c != '<' && c != '&'
    if (splitAt? "]]>".toList text).isSome then none else some (w.addText text, s.drop text.length)

/-- Reads content of which the first `skip` characters are done, until no element is open. Tells
whether that was reached, and the text that is left. -/
def content (d : Doctype) : (skip : Nat) → Chars → Walk → Walk × Option Chars
  | _, [], w => (w, none)
  | skip + 1, _ :: cs, w => content d skip cs w
  | 0, c :: cs, w =>
    match step d w (c :: cs) with
    | none => (w, none)
    | some (w, rest) =>
      if w.elements.isEmpty then (w, some rest) else content d (cs.length - rest.length) cs w

end Walk

structure Reading where
  events : List Event
  refusal : Option Refusal

def readRoot (d : Doctype) (s : Chars) : Reading :=
  match s with
  | '<' :: c :: _ =>
    if !isNameStart c then ⟨[], some .malformed⟩
    else
      let (w, rest?) := Walk.content d 0 s {}
      let complete := match rest? with
        | some rest => (skipRemarks rest.length rest).isEmpty
        | none => false
      ⟨w.events.reverse, if complete then none else some .malformed⟩
  | _ => ⟨[], some .malformed⟩

/-- The events of a document. A character that is not admitted ends it. -/
def read (s : Chars) : Reading :=
  let s := match s with
    | '\uFEFF' :: s => s
    | s => s
  let s := normalizeEnds s
  let admitted := s.takeWhile isAdmitted
  let r : Reading := match Doctype.prolog admitted with
    | .error f => ⟨[], some f⟩
    | .ok (d, rest) => readRoot d rest
  if admitted.length == s.length then r else { r with refusal := some (r.refusal.getD .malformed) }

end Canonmark.Xml
