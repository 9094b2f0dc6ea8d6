import Canonmark.Html.Piece
import Canonmark.Node.Basic

/-! What is known about an HTML fragment: its root element. -/
namespace Canonmark.Html

private def among (names : List String) (name : Chars) : Bool := names.contains (String.ofList name)

def isVoid (name : Chars) : Bool :=
  among ["area", "base", "br", "col", "embed", "hr", "img", "input", "keygen", "link", "menuitem",
    "meta", "param", "source", "track", "wbr", "basefont", "bgsound", "command", "frame", "image",
    "isindex", "nextid", "spacer"] name

def keepsSpace (name : Chars) : Bool := among ["pre", "textarea"] name

/-- Elements whose text is no text of the elements around them. -/
def hidesText (name : Chars) : Bool := among ["rt", "rp", "style", "script", "template"] name

def isWordList (element attr : Chars) : Bool :=
  among ["class", "accesskey", "dropzone"] attr ||
    match String.ofList element with
    | "a" | "link" => among ["rel", "rev"] attr
    | "area" => among ["rel"] attr
    | "td" | "th" => among ["headers"] attr
    | "form" => among ["accept-charset"] attr
    | "object" => among ["archive"] attr
    | "icon" => among ["sizes"] attr
    | "iframe" => among ["sandbox"] attr
    | "output" => among ["for"] attr
    | _ => false

/-- The value of an attribute; lists of words are joined by single spaces. -/
def attributeText (element : Chars) (a : RawAttribute) : Chars :=
  let value := a.text
  if isWordList element (Text.toLower a.name)
    then List.intercalate [' '] (Text.words value) else value

/-- Adds an attribute; a later value of a name replaces an earlier one. -/
def setAttribute (a : Attribute) : List Attribute → List Attribute
  | [] => [a]
  | b :: bs => if b.name == a.name then a :: bs else b :: setAttribute a bs

def attributesOf (element : Chars) (raw : List RawAttribute) : List Attribute :=
  raw.foldl (fun as a => setAttribute
    ⟨String.ofList (Text.toLower a.name), String.ofList (attributeText element a)⟩ as) []

def attributeString (as : List Attribute) : String :=
  String.join (as.map fun a => a.name ++ " = \"" ++ a.value ++ "\" ")

structure Root where
  name : Chars
  attributes : List Attribute
  content : Chars := []

/-- The walk over the pieces: the open elements, the innermost first; the text not yet placed; the
void elements already closed; and the root, whether it is closed, or that there is none. -/
structure Walk where
  stack : List Chars := []
  pending : List Chars := []
  closedVoids : List Chars := []
  root : Option Root := none
  rootClosed : Bool := false
  rootless : Bool := false

namespace Walk

private def isAsciiSpace (c : Char) : Bool :=
  c == ' ' || c == '\n' || c == '\t' || c == '\x0c' || c == '\r'

def collapse (stack : List Chars) (text : Chars) : Chars :=
  if text.all isAsciiSpace && !stack.any keepsSpace then
    (if text.contains '\n' then ['\n'] else [' '])
  else text

private def hidingElement (stack : List Chars) : Option Chars := stack.find? hidesText

/-- Whether text inside the open elements belongs to the root. -/
private def counts (root : Root) (stack : List Chars) (cdata : Bool) : Bool :=
  if cdata then !hidesText root.name
  else if hidesText root.name then hidingElement stack == some root.name
  else (hidingElement stack).isNone

private def place (w : Walk) (text : Chars) (cdata : Bool) : Walk :=
  match w.root with
  | some root =>
    if !w.rootClosed && counts root w.stack cdata then
      { w with root := some { root with content := root.content ++ text } }
    else w
  | none =>
    if cdata || !(Text.trim text).isEmpty then { w with rootless := true } else w

def flush (w : Walk) : Walk :=
  match w.pending with
  | [] => w
  | ps => place { w with pending := [] } (collapse w.stack ps.flatten) false

def close (w : Walk) (name : Chars) : Walk :=
  if w.stack.contains name then
    let stack := (w.stack.dropWhile (· != name)).tail
    { w with stack, rootClosed := w.rootClosed || stack.isEmpty }
  else w

/-- Handles an end tag; the first one after a void element of its name is already done. -/
def endTag (w : Walk) (name : Chars) : Walk :=
  if w.closedVoids.contains name then { w with closedVoids := w.closedVoids.erase name }
  else w.flush.close name

def startTag (w : Walk) (name : Chars) (raw : List RawAttribute) (closed : Bool) : Walk :=
  let w := w.flush
  let w := if w.root.isNone && !w.rootless then
      { w with root := some { name, attributes := attributesOf name raw } }
    else w
  let w := { w with stack := name :: w.stack }
  if closed then w.endTag name
  else if isVoid name then
    let w := w.flush.close name
    { w with closedVoids := name :: w.closedVoids }
  else w

def piece (w : Walk) : Piece → Walk
  | .text text => if text.isEmpty then w else { w with pending := w.pending ++ [text] }
  | .startTag name raw closed => w.startTag name raw closed
  | .endTag name => w.endTag name
  | .cdata text =>
    let w := w.flush
    place w (collapse w.stack text) true
  | .other =>
    let w := w.flush
    if w.root.isNone then { w with rootless := true } else w

end Walk

/-- The root element of a fragment: the first thing in it, apart from white space and end tags that
close nothing. -/
def root? (s : Chars) : Option Root :=
  match pieces s with
  | .error _ => none
  | .ok ps =>
    let w := (ps.foldl Walk.piece {}).flush
    if w.rootless then none else w.root

/-- What is known about a fragment, or nothing if it does not start with an element. -/
def inspect (s : String) : Option TagInfo :=
  let cs := s.toList
  (root? cs).map fun root =>
    { tagName := String.ofList (Text.toLower root.name),
      attributeString := attributeString root.attributes,
      attributes := root.attributes,
      content := String.ofList root.content,
      closed := (Text.trimEnd cs).reverse.take 2 == ['>', '/'] }

end Canonmark.Html
