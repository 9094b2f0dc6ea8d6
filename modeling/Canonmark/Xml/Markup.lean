import Canonmark.Text.CharacterReference
import Canonmark.Xml.Name

/-! The markup of XML: references, tags, comments, instructions and sections of data. Each reader
takes the text after the signs that announce its construct and answers with the text that follows
it. -/
namespace Canonmark.Xml

def isAdmitted (c : Char) : Bool :=
  0x20 ≤ c.toNat && c != '\uFFFE' && c != '\uFFFF' || c == '\t' || c == '\n' || c == '\r'

def isWhite (c : Char) : Bool := c == ' ' || c == '\t' || c == '\n' || c == '\r'

def skipWhite (s : Chars) : Chars := s.dropWhile isWhite

def normalizeEnds : Chars → Chars
  | [] => []
  | '\r' :: '\n' :: cs => '\n' :: normalizeEnds cs
  | c :: cs => (if c == '\r' then '\n' else c) :: normalizeEnds cs

def splitAt? (part : Chars) : Chars → Option (Chars × Chars)
  | [] => none
  | c :: cs =>
    match Text.dropStart? part (c :: cs) with
    | some rest => some ([], rest)
    | none => (splitAt? part cs).map fun (before, rest) => (c :: before, rest)

def numbered? (digits : Chars) (n : Nat) (rest : Chars) : Option (Chars × Chars) :=
  match rest with
  | ';' :: rest =>
    if digits.isEmpty || 0x10FFFF < n || (0xD800 ≤ n && n ≤ 0xDFFF) ||
      !isAdmitted (Char.ofNat n) then none
    else some ([Char.ofNat n], rest)
  | _ => none

/-- The entities that need no declaration. -/
def entity? (name : Chars) : Option Char :=
  match String.ofList name with
  | "amp" => some '&'
  | "lt" => some '<'
  | "gt" => some '>'
  | "quot" => some '"'
  | "apos" => some '\''
  | _ => none

/-- The text of a reference. Where `lenient` is set, an unknown entity may be declared elsewhere,
and has no text. -/
def reference? (lenient : Bool) : Chars → Option (Chars × Chars)
  | '#' :: 'x' :: s =>
    let digits := s.takeWhile Text.isHexDigit
    numbered? digits (Text.hexadecimalValue digits) (s.drop digits.length)
  | '#' :: s =>
    let digits := s.takeWhile Char.isDigit
    numbered? digits (Text.decimalValue digits) (s.drop digits.length)
  | s =>
    (plainName? s).bind fun (name, rest) =>
      match rest with
      | ';' :: rest =>
        match entity? name with
        | some c => some ([c], rest)
        | none => if lenient then some ([], rest) else none
      | _ => none

structure RawAttribute where
  name : Name
  value : Chars
  deriving DecidableEq, Repr

/-- A start tag. An empty one is its own end. -/
structure Tag where
  name : Name
  attributes : List RawAttribute
  empty : Bool
  deriving DecidableEq, Repr

/-- A value up to its quote; the first `skip` characters belong to a reference that is done. -/
def valueFrom (lenient : Bool) (quote : Char) : (skip : Nat) → Chars → Option (Chars × Chars)
  | _, [] => none
  | skip + 1, _ :: cs => valueFrom lenient quote skip cs
  | 0, c :: cs =>
    if c == quote then some ([], cs)
    else if c == '<' then none
    else if c == '&' then
      (reference? lenient cs).bind fun (text, rest) =>
        (valueFrom lenient quote (cs.length - rest.length) cs).map fun (value, rest) =>
          (text ++ value, rest)
    else
      (valueFrom lenient quote 0 cs).map fun (value, rest) =>
        ((if isWhite c then ' ' else c) :: value, rest)

def quotedValue? (lenient : Bool) : Chars → Option (Chars × Chars)
  | '"' :: s => valueFrom lenient '"' 0 s
  | '\'' :: s => valueFrom lenient '\'' 0 s
  | _ => none

def attribute? (lenient : Bool) (s : Chars) : Option (RawAttribute × Chars) :=
  (Name.read? s).bind fun (name, rest) =>
    match skipWhite rest with
    | '=' :: rest =>
      (quotedValue? lenient (skipWhite rest)).map fun (value, rest) => (⟨name, value⟩, rest)
    | _ => none

/-- The attributes and the end of a start tag: whether it is empty, and what follows. White space
stands before each attribute. -/
def attributes? (lenient : Bool) : (fuel : Nat) → Chars → Option (List RawAttribute × Bool × Chars)
  | 0, _ => none
  | fuel + 1, s =>
    let spaced := skipWhite s
    match spaced with
    | '>' :: rest => some ([], false, rest)
    | '/' :: '>' :: rest => some ([], true, rest)
    | spaced =>
      if spaced.length == s.length then none
      else
        (attribute? lenient spaced).bind fun (a, rest) =>
          (attributes? lenient fuel rest).map fun (as, empty, rest) => (a :: as, empty, rest)

def tag? (lenient : Bool) (s : Chars) : Option (Tag × Chars) :=
  (Name.read? s).bind fun (name, rest) =>
    (attributes? lenient (rest.length + 1) rest).map fun (as, empty, rest) =>
      (⟨name, as, empty⟩, rest)

def endTag? (s : Chars) : Option (Name × Chars) :=
  (Name.read? s).bind fun (name, rest) =>
    match skipWhite rest with
    | '>' :: rest => some (name, rest)
    | _ => none

/-- What follows a comment. Two hyphens within it are refused. -/
def afterComment? (s : Chars) : Option Chars :=
  (splitAt? ['-', '-'] s).bind fun (_, rest) =>
    match rest with
    | '>' :: rest => some rest
    | _ => none

private def isReservedTarget (name : Chars) : Bool := String.ofList (name.map Char.toLower) == "xml"

def afterInstruction? (s : Chars) : Option Chars :=
  (plainName? s).bind fun (target, rest) =>
    if isReservedTarget target then none
    else
      match rest with
      | '?' :: '>' :: rest => some rest
      | c :: rest => if isWhite c then (splitAt? ['?', '>'] rest).map Prod.snd else none
      | [] => none

/-- What follows a comment or an instruction, given the text after `<`. -/
def afterRemark? : Chars → Option Chars
  | '!' :: '-' :: '-' :: s => afterComment? s
  | '?' :: s => afterInstruction? s
  | _ => none

def data? (s : Chars) : Option (Chars × Chars) :=
  (Text.dropStart? "![CDATA[".toList s).bind (splitAt? "]]>".toList)

/-- What follows white space, comments and instructions. -/
def skipRemarks : (fuel : Nat) → Chars → Chars
  | 0, s => s
  | fuel + 1, s =>
    match skipWhite s with
    | '<' :: rest =>
      match afterRemark? rest with
      | some rest => skipRemarks fuel rest
      | none => '<' :: rest
    | s => s

end Canonmark.Xml
