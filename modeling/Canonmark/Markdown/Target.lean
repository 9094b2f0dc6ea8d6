import Canonmark.Markdown.Depth
import Canonmark.Markdown.Line
import Canonmark.Text.CharacterReference
import Canonmark.Text.LetterCase

/-! Where links lead: destinations, titles and the labels that stand for both. -/
namespace Canonmark.Markdown

structure Target where
  destination : Chars
  title : Chars := []
  deriving DecidableEq, Repr

structure Definition where
  label : Chars
  target : Target
  deriving DecidableEq, Repr

namespace Target

/-- Text in brackets up to the closing one, and what follows. Brackets within it are escaped. -/
def bracketed? : Chars → Option (Chars × Chars)
  | [] => none
  | '\\' :: c :: cs =>
    (bracketed? cs).map fun (label, rest) => ('\\' :: c :: label, rest)
  | c :: cs =>
    if c == ']' then some ([], cs)
    else if c == '[' then none
    else (bracketed? cs).map fun (label, rest) => (c :: label, rest)

/-- A label, given the text after its bracket: not blank, and not longer than 999 characters. -/
def label? (s : Chars) : Option (Chars × Chars) :=
  (bracketed? s).bind fun (label, rest) =>
    if label.all Text.isBlank || 999 < label.length then none else some (label, rest)

def normalLabel (label : Chars) : Chars :=
  Text.toUpper (Text.toLower (List.intercalate [' '] (Text.words label)))

def angled? : Chars → Option (Chars × Chars)
  | [] => none
  | '\\' :: c :: cs =>
    if c == '\n' then none
    else (angled? cs).map fun (dest, rest) => ('\\' :: c :: dest, rest)
  | c :: cs =>
    if c == '>' then some ([], cs)
    else if c == '<' || c == '\n' then none
    else (angled? cs).map fun (dest, rest) => (c :: dest, rest)

def isControl (c : Char) : Bool := c.toNat < 0x20 || c == '\x7f'

/-- A destination without brackets: no white space, and parentheses in pairs, which nest as deep as
other things do; `depth` of them are open. -/
def bare? (depth : Nat) : Chars → Option (Chars × Chars)
  | [] => if depth == 0 then some ([], []) else none
  | '\\' :: c :: cs =>
    if isPunctuation c then (bare? depth cs).map fun (dest, rest) => ('\\' :: c :: dest, rest)
    else (bare? depth (c :: cs)).map fun (dest, rest) => ('\\' :: dest, rest)
  | c :: cs =>
    if c == ' ' || isControl c || (c == ')' && depth == 0) then
      if depth == 0 then some ([], c :: cs) else none
    else
      let depth := if c == '(' then depth + 1 else if c == ')' then depth - 1 else depth
      if maxDepth < depth then none else (bare? depth cs).map fun (dest, rest) => (c :: dest, rest)

def written? : Chars → Option (Chars × Chars)
  | '<' :: cs => angled? cs
  | s => bare? 0 s

def titleBody? (close : Char) : Chars → Option (Chars × Chars)
  | [] => none
  | '\\' :: c :: cs => (titleBody? close cs).map fun (title, rest) => ('\\' :: c :: title, rest)
  | c :: cs =>
    if c == close then some ([], cs)
    else if c == '(' && close == ')' then none
    else (titleBody? close cs).map fun (title, rest) => (c :: title, rest)

def title? : Chars → Option (Chars × Chars)
  | '"' :: cs => titleBody? '"' cs
  | '\'' :: cs => titleBody? '\'' cs
  | '(' :: cs => titleBody? ')' cs
  | _ => none

private def hexDigit (n : Nat) : Char := Char.ofNat (if n < 10 then 0x30 + n else 0x37 + n)

/-- Characters that stand in a destination as they are. -/
def isPlain (c : Char) : Bool :=
  c.isAlphanum || "_.-~:/?#@!$&()*+,;=%".toList.contains c

def percentByte (b : UInt8) : Chars := ['%', hexDigit (b.toNat / 16), hexDigit (b.toNat % 16)]

def percentEncode (s : Chars) : Chars :=
  s.flatMap fun c => if isPlain c then [c] else (String.utf8EncodeChar c).flatMap percentByte

/-- The destination of an automatic link, which knows no backslash escapes. -/
def ofAddress (address : Chars) : Chars := percentEncode (Text.decodeReferences address)

/-- The target of a destination and a title that are written so. Character references in the title
are left for later. -/
def ofWritten (dest title : Chars) : Target := ⟨ofAddress (dropEscapes dest), dropEscapes title⟩

def inParentheses? (s : Chars) : Option (Target × Chars) :=
  (written? (s.dropWhile isLineSpace)).bind fun (dest, rest) =>
    let spaced := rest.dropWhile isLineSpace
    match spaced with
    | ')' :: after => some (ofWritten dest [], after)
    | _ =>
      if spaced.length == rest.length then none
      else
        (title? spaced).bind fun (title, rest) =>
          match rest.dropWhile isLineSpace with
          | ')' :: after => some (ofWritten dest title, after)
          | _ => none

def atLineEnd? (s : Chars) : Option Chars :=
  match s.dropWhile isSpace with
  | [] => some []
  | c :: rest => if c == '\n' then some rest else none

def titleLine? (s : Chars) : Option (Chars × Chars) :=
  let spaced := s.dropWhile isLineSpace
  if spaced.length == s.length then none
  else (title? spaced).bind fun (title, rest) => (atLineEnd? rest).map fun rest => (title, rest)

end Target

namespace Definition

def afterLabel? : Chars → Option (Target × Chars)
  | ':' :: s =>
    let s := s.dropWhile isLineSpace
    if s.isEmpty then none
    else
      (Target.written? s).bind fun (dest, rest) =>
        match Target.titleLine? rest with
        | some (title, rest) => some (.ofWritten dest title, rest)
        | none => (Target.atLineEnd? rest).map fun rest => (.ofWritten dest [], rest)
  | _ => none

def read? : Chars → Option (Definition × Chars)
  | '[' :: s =>
    (Target.label? s).bind fun (label, rest) =>
      (afterLabel? rest).map fun (target, rest) => (⟨Target.normalLabel label, target⟩, rest)
  | _ => none

/-- The target that a label stands for: that of the first definition. -/
def find? (ds : List Definition) (label : Chars) : Option Target :=
  let label := Target.normalLabel label
  (ds.find? fun d => d.label == label).map (·.target)

end Definition
end Canonmark.Markdown
