import Canonmark.Proofs.Builder.Sound
import Canonmark.Proofs.Node.Span

/-! The XML text of a document: one element for each node, with its properties as attributes and its
text as character data, however characters are spelled and wherever there is room for space. -/
namespace Canonmark.Xml

/-- Printable characters of ASCII. -/
def IsPrintable (c : Char) : Prop := 0x20 ≤ c.toNat ∧ c.toNat ≤ 0x7E

instance : DecidablePred IsPrintable :=
  fun c => inferInstanceAs (Decidable (0x20 ≤ c.toNat ∧ c.toNat ≤ 0x7E))

/-- Characters that are printable or end lines. -/
def IsClean (s : Chars) : Prop := ∀ c ∈ s, IsPrintable c ∨ c = '\n'

instance : DecidablePred IsClean := fun s => List.decidableBAll _ s

/-- Space within tags and between elements. -/
def IsGap (s : Chars) : Prop := ∀ c ∈ s, c = ' ' ∨ c = '\n'

/-- The characters that have a name, and their names. -/
def characterNames : List (String × Char) :=
  [("amp", '&'), ("lt", '<'), ("gt", '>'), ("quot", '"'), ("apos", '\'')]

/-- A character that stands for itself, in a value between the given quotes or in character data. -/
def IsBare (quote : Option Char) (c : Char) : Prop := c ≠ '&' ∧ c ≠ '<' ∧ c ≠ '>' ∧ some c ≠ quote

/-- The references to a character, by its name or its number, after their ampersand. -/
inductive IsReference (c : Char) : Chars → Prop
  | named {name : String} (known : (name, c) ∈ characterNames) :
      IsReference c (name.toList ++ [';'])
  | decimal {digits : Chars} (given : digits ≠ []) (decimal : ∀ d ∈ digits, d.isDigit)
      (value : Text.decimalValue digits = c.toNat) : IsReference c ('#' :: (digits ++ [';']))
  | hexadecimal {digits : Chars} (given : digits ≠ [])
      (hexadecimal : ∀ d ∈ digits, Text.isHexDigit d)
      (value : Text.hexadecimalValue digits = c.toNat) :
      IsReference c ('#' :: 'x' :: (digits ++ [';']))

/-- The spellings of a character. -/
inductive Spells (quote : Option Char) (c : Char) : Chars → Prop
  | bare (bare : IsBare quote c) : Spells quote c [c]
  | reference {body : Chars} (reference : IsReference c body) : Spells quote c ('&' :: body)

/-- A text, spelled character by character. -/
inductive SpellsText (quote : Option Char) : Chars → Chars → Prop
  | nil : SpellsText quote [] []
  | cons {c : Char} {cs own rest : Chars} (first : Spells quote c own)
      (others : SpellsText quote cs rest) : SpellsText quote (c :: cs) (own ++ rest)

/-- The text of a leaf, if it holds any. -/
def leafText : Leaf → String
  | .codeBlock text .. | .htmlBlock text _ | .text text | .code text | .htmlInline text _ => text
  | .thematicBreak | .softbreak | .linebreak => ""

/-- What is known about the tag of a leaf. -/
def leafTag? : Leaf → Option TagInfo
  | .codeBlock _ _ tag | .htmlBlock _ tag | .htmlInline _ tag => tag
  | .thematicBreak | .text _ | .code _ | .softbreak | .linebreak => none

def optionalAttribute (name : String) (value : Option String) : List (String × String) :=
  (value.map fun v => (name, v)).toList

/-- The properties of a leaf besides its text. -/
def leafAttributes : Leaf → List (String × String)
  | .codeBlock _ info _ => optionalAttribute "info" info
  | _ => []

def containerAttributes : Container → List (String × String)
  | .document xmlns => [("xmlns", xmlns)]
  | .heading level => [("level", level.text)]
  | .list data =>
    [("type", data.listType)] ++ optionalAttribute "start" data.start ++
      optionalAttribute "tight" data.tight ++ optionalAttribute "delimiter" data.delimiter
  | .link destination title | .image destination title =>
    [("destination", destination), ("title", title)]
  | .clause clauseid src clauseText =>
    [("clauseid", clauseid), ("src", src)] ++ optionalAttribute "clauseText" clauseText
  | .templateVariable id value => [("id", id), ("value", value)]
  | .computedVariable value => [("value", value)]
  | .paragraph | .blockQuote | .item | .emph | .strong => []

def spanAttribute (span : Option Span) : List (String × String) :=
  optionalAttribute Schema.spanKey (span.map Span.toText)

/-- Attributes, each after some space and with its value in quotes. -/
inductive AreAttributes : List (String × String) → Chars → Prop
  | nil : AreAttributes [] []
  | cons {name value : String} {others : List (String × String)}
      {gap body rest : Chars} {quote : Char} (space : IsGap gap) (apart : gap ≠ [])
      (quoted : quote = '"' ∨ quote = '\'') (spelled : SpellsText (some quote) value.toList body)
      (following : AreAttributes others rest) : AreAttributes ((name, value) :: others)
        (gap ++ (name.toList ++ '=' :: quote :: (body ++ quote :: rest)))

/-- A start tag before its end: the name of a kind, and attributes in any order. -/
inductive IsStart (kind : Kind) (attributes : List (String × String)) : Chars → Prop
  | mk {order : List (String × String)} {text gap : Chars} (perm : order.Perm attributes)
      (spelled : AreAttributes order text) (space : IsGap gap) :
      IsStart kind attributes ('<' :: (kind.elementName.toList ++ (text ++ gap)))

inductive IsEnd (kind : Kind) : Chars → Prop
  | mk {gap : Chars} (space : IsGap gap) :
      IsEnd kind ('<' :: '/' :: (kind.elementName.toList ++ (gap ++ ['>'])))

mutual

/-- The element of a node. What holds nothing may be written without an end tag. -/
inductive IsXml : Node → Chars → Prop
  | leaf {l : Leaf} {span : Option Span} {start body stop : Chars}
      (opening : IsStart l.kind (leafAttributes l ++ spanAttribute span) start)
      (text : SpellsText none (leafText l).toList body) (closing : IsEnd l.kind stop) :
      IsXml (.leaf l span) (start ++ '>' :: (body ++ stop))
  | emptyLeaf {l : Leaf} {span : Option Span} {start : Chars}
      (opening : IsStart l.kind (leafAttributes l ++ spanAttribute span) start)
      (empty : leafText l = "") : IsXml (.leaf l span) (start ++ ['/', '>'])
  | branch {c : Container} {span : Option Span} {children : List Node} {start content stop : Chars}
      (opening : IsStart c.kind (containerAttributes c ++ spanAttribute span) start)
      (below : AreXml children content) (closing : IsEnd c.kind stop) :
      IsXml (.branch c span children) (start ++ '>' :: (content ++ stop))
  | emptyBranch {c : Container} {span : Option Span} {start : Chars}
      (opening : IsStart c.kind (containerAttributes c ++ spanAttribute span) start) :
      IsXml (.branch c span []) (start ++ ['/', '>'])

/-- The elements of nodes, with space around them. -/
inductive AreXml : List Node → Chars → Prop
  | nil {gap : Chars} (space : IsGap gap) : AreXml [] gap
  | cons {n : Node} {ns : List Node} {gap own rest : Chars} (space : IsGap gap)
      (first : IsXml n own) (others : AreXml ns rest) : AreXml (n :: ns) (gap ++ (own ++ rest))

end

/-- The XML text of a document: its element, with space around it. -/
inductive IsDocumentXml (n : Node) : Chars → Prop
  | mk {before own after : Chars} (leading : IsGap before) (root : IsXml n own)
      (trailing : IsGap after) : IsDocumentXml n (before ++ (own ++ after))

/-- A node below a document: none of the template's own, no tag known, and printable throughout;
texts may go over several lines. -/
inductive IsCommon : Node → Prop
  | leaf {l : Leaf} {span : Option Span} (untagged : leafTag? l = none)
      (text : IsClean (leafText l).toList)
      (printable : ∀ a ∈ leafAttributes l, ∀ c ∈ a.2.toList, IsPrintable c)
      (writable : ∀ s ∈ span, s.IsWritable) : IsCommon (.leaf l span)
  | branch {c : Container} {span : Option Span} {children : List Node} (common : c.kind.isCommon)
      (other : c.kind ≠ .document)
      (printable : ∀ a ∈ containerAttributes c, ∀ c ∈ a.2.toList, IsPrintable c)
      (writable : ∀ s ∈ span, s.IsWritable) (below : ∀ n ∈ children, IsCommon n) :
      IsCommon (.branch c span children)

/-- A document of such nodes. -/
inductive IsCommonDocument : Node → Prop
  | mk {span : Option Span} {children : List Node} (writable : ∀ s ∈ span, s.IsWritable)
      (below : ∀ n ∈ children, IsCommon n) :
      IsCommonDocument (.branch (.document defaultNamespace) span children)

end Canonmark.Xml
