import Canonmark.Html.Tag

/-! HTML taken apart into tags, texts and other markup. -/
namespace Canonmark.Html

inductive Piece where
  | text (text : Chars)
  | startTag (name : Chars) (attributes : List RawAttribute) (closed : Bool)
  | endTag (name : Chars)
  | cdata (text : Chars)
  /-- Comments, declarations and instructions. -/
  | other

inductive Refusal where
  /-- A marked section is of an unknown kind. -/
  | unknownSection
  /-- The number of a character has too many digits. -/
  | longNumber
  deriving DecidableEq, Repr

def holdsRawText (name : Chars) : Bool := name == "script".toList || name == "style".toList

def afterAngle? (s : Chars) : Option Chars :=
  match s.dropWhile (· != '>') with
  | [] => none
  | _ :: rest => some rest

def afterComment? : Chars → Option Chars
  | [] => none
  | c :: cs =>
    if c == '-' && cs.head? == some '-' then
      match cs.tail.dropWhile Text.isBlank with
      | '>' :: rest => some rest
      | _ => afterComment? cs
    else afterComment? cs

/-- A marked section up to its end, and what follows: one or two brackets and `>`, with white space
between. -/
def splitSection? (double : Bool) : Chars → Option (Chars × Chars)
  | [] => none
  | c :: cs =>
    let ended? : Option Chars :=
      if c == ']' then
        let spaced := cs.dropWhile Text.isBlank
        let last? :=
          if double then (if spaced.head? == some ']' then some spaced.tail else none) else some cs
        last?.bind fun r =>
          match r.dropWhile Text.isBlank with
          | '>' :: rest => some rest
          | _ => none
      else none
    match ended? with
    | some rest => some ([], rest)
    | none => (splitSection? double cs).map fun (before, rest) => (c :: before, rest)

inductive Outcome where
  | pieces (ps : List Piece) (raw : Option Chars) (rest : Chars)
  | unfinished

private def isNameSign (c : Char) : Bool := c.isAlphanum || c == '-' || c == '_' || c == '.'

def markedSection (s : Chars) : Except Refusal Outcome :=
  match s with
  | [] => .ok .unfinished
  | c :: _ =>
    if !isAsciiLetter c then .error .unknownSection
    else
      let name := s.takeWhile isNameSign
      if ((s.drop name.length).dropWhile Text.isBlank).isEmpty then .ok .unfinished
      else
        let key := String.ofList (Text.toLower name)
        let double := ["temp", "cdata", "ignore", "include", "rcdata"].contains key
        if !double && !(["if", "else", "endif"].contains key) then .error .unknownSection
        else
          match splitSection? double s with
          | none => .ok .unfinished
          | some (body, rest) =>
            let isData := Text.toUpper (body.take 6) == "CDATA[".toList
            .ok (.pieces [if isData then .cdata (body.drop 6) else .other] none rest)

def declaration (s : Chars) : Except Refusal Outcome :=
  match s with
  | '-' :: '-' :: rest =>
    match afterComment? rest with
    | some rest => .ok (.pieces [.other] none rest)
    | none => .ok .unfinished
  | '[' :: rest => markedSection rest
  | _ =>
    let body := if Text.toLower (s.take 7) == "doctype".toList then s.drop 7 else s
    match afterAngle? body with
    | some rest => .ok (.pieces [.other] none rest)
    | none => .ok .unfinished

/-- The name of an end tag that has nothing but its name, given the text after `</`. -/
def plainEndTag? (s : Chars) : Option (Chars × Chars) :=
  match s.dropWhile Text.isBlank with
  | [] => none
  | c :: cs =>
    if !isAsciiLetter c then none
    else
      let tail := cs.takeWhile fun d => isNameSign d || d == ':'
      match (cs.drop tail.length).dropWhile Text.isBlank with
      | '>' :: rest => some (Text.toLower (c :: tail), rest)
      | _ => none

def endTag (s : Chars) : Outcome :=
  match afterAngle? s with
  | none => .unfinished
  | some afterFirst =>
    match plainEndTag? s with
    | some (name, rest) => .pieces [.endTag name] none rest
    | none =>
      match s with
      | [] => .unfinished
      | c :: cs =>
        if isAsciiLetter c then
          let name := s.takeWhile (!endsTagName ·)
          let rest := (afterAngle? (skipFiller (s.drop name.length))).getD []
          .pieces [.endTag (Text.toLower name)] none rest
        else if c == '>' then .pieces [] none cs
        else .pieces [.other] none afterFirst

def markup (s : Chars) : Except Refusal Outcome :=
  match s with
  | [] => .ok .unfinished
  | '/' :: rest => .ok (endTag rest)
  | '!' :: rest => declaration rest
  | '?' :: rest =>
    match afterAngle? rest with
    | some rest => .ok (.pieces [.other] none rest)
    | none => .ok .unfinished
  | c :: _ =>
    if isAsciiLetter c then
      match startTag s with
      | .element name as closed rest =>
        .ok (.pieces [.startTag name as closed]
          (if !closed && holdsRawText name then some name else none) rest)
      | .text text rest => .ok (.pieces [.text text] none rest)
      | .unfinished => .ok .unfinished
      | .longNumber => .error .longNumber
    else .ok (.pieces [.text ['<']] none s)

/-- Raw text up to the end tag of its element. -/
def rawText? (name : Chars) : Chars → Option (Chars × Chars)
  | [] => none
  | c :: cs =>
    let ended? : Option Chars := match c, cs with
      | '<', '/' :: rest =>
        match plainEndTag? rest with
        | some (n, rest) => if n == name then some rest else none
        | none => none
      | _, _ => none
    match ended? with
    | some rest => some ([], rest)
    | none => (rawText? name cs).map fun (text, rest) => (c :: text, rest)

/-- What a number stands for in text: below 256, its place in windows-1252. -/
def numberedText (n : Nat) : Chars :=
  if 0x80 ≤ n && n ≤ 0x9F then [Char.ofNat (Text.windowsCharacters.getD (n - 0x80) n)]
  else if 0x10FFFF < n || (0xD800 ≤ n && n ≤ 0xDFFF) then ['\uFFFD']
  else [Char.ofNat n]

/-- What a name stands for in text; an unknown one is kept, without its semicolon. -/
def namedText (name : Chars) : Chars :=
  match Text.namedCharacter? (name ++ [';']) with
  | some cs => cs
  | none => '&' :: name

/-- The outcome of reading a reference: how many characters after `&` belong to it and what it
stands for, or that it is not finished. -/
inductive ReferenceOutcome where
  | replaced (text rest : Chars)
  /-- The reading ends before `rest`. -/
  | stop (text rest : Chars)
  | longNumber

private def dropSemicolon : Chars → Chars
  | ';' :: rest => rest
  | s => s

/-- Reads what stands at an `&`, given the text after it. -/
def reference (final : Bool) (s : Chars) : ReferenceOutcome :=
  match s with
  | '#' :: rest =>
    let (digits, value, long, after) := match rest with
      | 'x' :: r | 'X' :: r =>
        let ds := r.takeWhile Text.isHexDigit
        (ds, Text.hexadecimalValue ds, false, r.drop ds.length)
      | r =>
        let ds := r.takeWhile Char.isDigit
        (ds, Text.decimalValue ds, Text.Numeral.maxDigits < ds.length, r.drop ds.length)
    let ended := match after with
      | [] => false
      | c :: _ => !Text.isHexDigit c
    if long && ended then .longNumber
    else if !digits.isEmpty && ended then .replaced (numberedText value) (dropSemicolon after)
    else if s.contains ';' then .stop ['&', '#'] rest
    else .stop [] ('&' :: s)
  | c :: _ =>
    if isAsciiLetter c then
      let run := s.takeWhile fun d => d.isAlphanum || d == '-' || d == '.'
      let after := s.drop run.length
      if !after.isEmpty then .replaced (namedText run) (dropSemicolon after)
      else
        let name := (Text.dropEndWhile (fun d => d != '-' && d != '.') run).dropLast
        if !name.isEmpty then .replaced (namedText name) (s.drop name.length)
        else if final && s.length == 1 then .stop [] s
        else .stop [] ('&' :: s)
    else .replaced ['&'] s
  | [] => .stop [] ['&']

structure Reading where
  pieces : List Piece
  raw : Option Chars
  rest : Chars

private def Reading.after (r : Reading) (ps : List Piece) : Reading :=
  { r with pieces := ps ++ r.pieces }

def readPieces (final : Bool) : (fuel : Nat) → (raw : Option Chars) → Chars → Except Refusal Reading
  | 0, raw, s => .ok ⟨[], raw, s⟩
  | _ + 1, raw, [] => .ok ⟨[], raw, []⟩
  | fuel + 1, some name, c :: cs =>
    match rawText? name (c :: cs) with
    | none => .ok ⟨[], some name, c :: cs⟩
    | some (text, rest) =>
      (readPieces final fuel none rest).map (·.after [.text text, .endTag name])
  | fuel + 1, none, c :: cs =>
    if c == '<' then
      if cs.isEmpty then .ok ⟨[], none, ['<']⟩
      else do
        match ← markup cs with
        | .pieces ps raw rest => (readPieces final fuel raw rest).map (·.after ps)
        | .unfinished =>
          if !final then .ok ⟨[], none, c :: cs⟩
          else
            let rest := match afterAngle? cs with
              | some rest => rest
              | none => if cs.contains '<' then cs.dropWhile (· != '<') else cs
            let text := (c :: cs).take (cs.length + 1 - rest.length)
            (readPieces final fuel none rest).map (·.after [.text text])
    else if c == '&' then
      match reference final cs with
      | .replaced text rest => (readPieces final fuel none rest).map (·.after [.text text])
      | .longNumber => .error .longNumber
      | .stop text rest => .ok ⟨if text.isEmpty then [] else [.text text], none, rest⟩
    else
      let text := (c :: cs).takeWhile fun d => d != '<' && d != '&'
      (readPieces final fuel none ((c :: cs).drop text.length)).map (·.after [.text text])

/-- The pieces of a text. It is read once as if more could follow, and then to its end; what is left
is text, but raw text without an end is dropped. -/
def pieces (s : Chars) : Except Refusal (List Piece) := do
  let first ← readPieces false (s.length + 1) none s
  let second ← readPieces true (first.rest.length + 1) first.raw first.rest
  let left := if second.raw.isNone && !second.rest.isEmpty then [Piece.text second.rest] else []
  pure (first.pieces ++ second.pieces ++ left)

end Canonmark.Html
