import Canonmark.Markdown.Line
import Canonmark.Text.LetterCase

/-! HTML within markdown: where a tag or another construct ends, and which lines begin and end a
block of HTML. Each reader of a construct answers with the text that follows it. -/
namespace Canonmark.Markdown.RawHtml

private def isNameStart (c : Char) : Bool := c.isAlpha || c == '_' || c == ':'

private def isNameSign (c : Char) : Bool := isNameStart c || c.isDigit || c == '.' || c == '-'

private def isBareSign (c : Char) : Bool :=
  !(isLineSpace c || c == '"' || c == '\'' || c == '=' || c == '<' || c == '>' || c == '\x60')

def tagName? : Chars → Option (Chars × Chars)
  | [] => none
  | c :: cs =>
    if c.isAlpha then
      let tail := cs.takeWhile fun d => d.isAlphanum || d == '-'
      some (c :: tail, cs.drop tail.length)
    else none

private def afterQuote? (quote : Char) (s : Chars) : Option Chars :=
  match s.dropWhile (· != quote) with
  | [] => none
  | _ :: rest => some rest

def afterValue? : Chars → Option Chars
  | '"' :: rest => afterQuote? '"' rest
  | '\'' :: rest => afterQuote? '\'' rest
  | s =>
    match s.dropWhile isBareSign with
    | rest => if rest.length == s.length then none else some rest

/-- What follows the equals sign and value of an attribute, which may be missing. -/
def afterOptionalValue? (s : Chars) : Option Chars :=
  match s.dropWhile isLineSpace with
  | '=' :: rest => afterValue? (rest.dropWhile isLineSpace)
  | _ => some s

def afterTagEnd? (s : Chars) : Option Chars :=
  match s.dropWhile isLineSpace with
  | '/' :: '>' :: rest => some rest
  | '>' :: rest => some rest
  | _ => none

def afterAttributes? : (fuel : Nat) → Chars → Option Chars
  | 0, s => afterTagEnd? s
  | fuel + 1, s =>
    let spaced := s.dropWhile isLineSpace
    match spaced with
    | c :: cs =>
      if isNameStart c && spaced.length < s.length then
        (afterOptionalValue? (cs.dropWhile isNameSign)).bind (afterAttributes? fuel)
      else afterTagEnd? s
    | [] => none

def openTag? (s : Chars) : Option (Chars × Chars) :=
  (tagName? s).bind fun (name, rest) =>
    (afterAttributes? rest.length rest).map fun rest => (name, rest)

def closingTag? (s : Chars) : Option Chars :=
  (tagName? s).bind fun (_, rest) =>
    match rest.dropWhile isLineSpace with
    | '>' :: rest => some rest
    | _ => none

def comment? : Chars → Option Chars
  | '>' :: rest => some rest
  | '-' :: '>' :: rest => some rest
  | s => afterText? "-->".toList s

def declaration? : Chars → Option Chars
  | '-' :: '-' :: rest => comment? rest
  | c :: cs =>
    match Text.dropStart? "[CDATA[".toList (c :: cs) with
    | some rest => afterText? "]]>".toList rest
    | none => if c.isAlpha then afterText? ['>'] cs else none
  | [] => none

def after? : Chars → Option Chars
  | '/' :: rest => closingTag? rest
  | '!' :: rest => declaration? rest
  | '?' :: rest => afterText? "?>".toList rest
  | s => (openTag? s).map Prod.snd

/-- The kinds of blocks. They differ in how they end. -/
inductive BlockKind where
  | verbatim | comment | instruction | declaration | data
  /-- Ends before a blank line. -/
  | paragraph
  deriving DecidableEq, Repr

/-- Elements whose text is kept as it is. -/
def isVerbatimName (name : Chars) : Bool :=
  ["pre", "script", "style", "textarea"].contains (String.ofList name)

def isBlockName (name : Chars) : Bool :=
  ["address", "article", "aside", "base", "basefont", "blockquote", "body", "caption", "center",
    "col", "colgroup", "dd", "details", "dialog", "dir", "div", "dl", "dt", "fieldset",
    "figcaption", "figure", "footer", "form", "frame", "frameset", "h1", "h2", "h3", "h4",
    "h5", "h6", "head", "header", "hr", "html", "iframe", "legend", "li", "link", "main",
    "menu", "menuitem", "nav", "noframes", "ol", "optgroup", "option", "p", "param", "search",
    "section", "summary", "table", "tbody", "td", "tfoot", "th", "thead", "title", "tr", "track",
    "ul"].contains (String.ofList name)

private def endsName : Chars → Bool
  | [] => true
  | c :: _ => isSpace c || c == '>'

private def endsBlockName : Chars → Bool
  | '/' :: '>' :: _ => true
  | s => endsName s

/-- Whether a whole tag and nothing else stands on a line, given the text after its `<`. -/
private def isLoneTag : Chars → Bool
  | '/' :: rest => ((closingTag? rest).map (·.all isSpace)).getD false
  | s =>
    match openTag? s with
    | some (name, rest) => !isVerbatimName (Text.toLower name) && rest.all isSpace
    | none => false

private def isBlockTag (s : Chars) : Bool :=
  let s := match s with
    | '/' :: rest => rest
    | s => s
  match tagName? s with
  | some (name, rest) => isBlockName (Text.toLower name) && endsBlockName rest
  | none => false

private def isVerbatimTag (s : Chars) : Bool :=
  match tagName? s with
  | some (name, rest) => isVerbatimName (Text.toLower name) && endsName rest
  | none => false

/-- The kind of block that a line begins. A lone tag does not interrupt a paragraph. -/
def blockKind? (interrupts : Bool) : Chars → Option BlockKind
  | '<' :: s =>
    if isVerbatimTag s then some .verbatim
    else if (Text.dropStart? "!--".toList s).isSome then some .comment
    else if s.head? == some '?' then some .instruction
    else if (Text.dropStart? "![CDATA[".toList s).isSome then some .data
    else if s.head? == some '!' && (s.tail.head?.map Char.isAlpha).getD false then some .declaration
    else if isBlockTag s || (!interrupts && isLoneTag s) then some .paragraph
    else none
  | _ => none

namespace BlockKind

def endsAt (line : Chars) : BlockKind → Bool
  | verbatim =>
    let line := Text.toLower line
    ["</script>", "</pre>", "</style>", "</textarea>"].any fun s => holdsText s.toList line
  | comment => holdsText "-->".toList line
  | instruction => holdsText "?>".toList line
  | declaration => holdsText ['>'] line
  | data => holdsText "]]>".toList line
  | paragraph => false

end BlockKind
end Canonmark.Markdown.RawHtml
