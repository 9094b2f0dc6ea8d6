import Canonmark.Markdown.Piece
import Canonmark.Markdown.RawHtml

/-! Inline content. A text is read from left to right into pieces; brackets stay open until it is
known whether they are a link. -/
namespace Canonmark.Markdown

namespace Inline

/-- Adds a piece to pieces, the latest first. Neighbouring plain texts become one, and so do escaped
ones. -/
def push (p : Piece) (ps : List Piece) : List Piece :=
  match p, ps with
  | .plain b, .plain a :: ps => .plain (a ++ b) :: ps
  | .escaped b, .escaped a :: ps => .escaped (a ++ b) :: ps
  | p, ps => p :: ps

/-- An open bracket: the text after it, and the pieces read since, the latest first. A link in a
link is none, so that the brackets around a link are no longer active. -/
structure Bracket where
  kind : Reference
  active : Bool := true
  source : Chars
  pieces : List Piece := []

structure Reading where
  brackets : List Bracket := []
  base : List Piece := []

namespace Reading

def push (st : Reading) (p : Piece) : Reading :=
  match st.brackets with
  | [] => { st with base := Inline.push p st.base }
  | b :: bs => { st with brackets := { b with pieces := Inline.push p b.pieces } :: bs }

def pushAll (st : Reading) (ps : List Piece) : Reading := ps.foldl push st

end Reading

namespace Bracket

def text (b : Bracket) : Chars :=
  match b.kind with
  | .link => ['[']
  | .image => ['!', '[']

def flat (b : Bracket) : List Piece := .plain b.text :: b.pieces.reverse

def deactivate (b : Bracket) : Bracket :=
  match b.kind with
  | .link => { b with active := false }
  | .image => b

end Bracket

/-- The closing run of code after an opening run of `size` backticks, `current` of which have just
been passed: the text before it, and what follows. -/
def codeBody? (size : Nat) : (current : Nat) → Chars → Option (Chars × Chars)
  | current, [] => if current == size then some ([], []) else none
  | current, c :: cs =>
    if c == '\x60' then (codeBody? size (current + 1) cs).map fun (body, rest) => (c :: body, rest)
    else if current == size then some ([], c :: cs)
    else (codeBody? size 0 cs).map fun (body, rest) => (c :: body, rest)

/-- The text of code: line ends are spaces, and one space at each end is left out, unless there is
nothing but spaces. -/
def codeText (body : Chars) : Chars :=
  let text := body.map fun c => if c == '\n' then ' ' else c
  if text.head? == some ' ' && text.getLast? == some ' ' && text.any (· != ' ') then
    text.tail.dropLast
  else text

def code? (size : Nat) (s : Chars) : Option (Chars × Chars) :=
  (codeBody? size 0 s).map fun (body, rest) => (codeText (body.take (body.length - size)), rest)

private def isSchemeSign (c : Char) : Bool := c.isAlphanum || c == '+' || c == '.' || c == '-'

def uri? (s : Chars) : Option (Chars × Chars) :=
  let scheme := s.takeWhile isSchemeSign
  match s.drop scheme.length with
  | ':' :: rest =>
    let body := rest.takeWhile fun c => 0x20 < c.toNat && c != '\x7f' && c != '<' && c != '>'
    match scheme, rest.drop body.length with
    | c :: _, '>' :: after =>
      if c.isAlpha && 2 ≤ scheme.length && scheme.length ≤ 32
        then some (scheme ++ ':' :: body, after)
      else none
    | _, _ => none
  | _ => none

private def isMailboxSign (c : Char) : Bool :=
  c.isAlphanum || ".!#$%&'*+/=?^_\x60\x7b|\x7d~-".toList.contains c

def isDomainLabel (s : Chars) : Bool :=
  s.all (fun c => c.isAlphanum || c == '-') && !s.isEmpty && s.length ≤ 63 &&
    s.head? != some '-' && s.getLast? != some '-'

def mail? (s : Chars) : Option (Chars × Chars) :=
  let mailbox := s.takeWhile isMailboxSign
  match s.drop mailbox.length with
  | '@' :: rest =>
    let domain := rest.takeWhile fun c => c.isAlphanum || c == '-' || c == '.'
    match rest.drop domain.length with
    | '>' :: after =>
      if !mailbox.isEmpty && (Text.splitWhere (· == '.') domain).all isDomainLabel then
        some (mailbox ++ '@' :: domain, after)
      else none
    | _ => none
  | _ => none

/-- What stands at a `<`, given the text after it; and what follows. -/
def angle? (s : Chars) : Option (Piece × Chars) :=
  match uri? s, mail? s, RawHtml.after? s with
  | some (text, rest), _, _ => some (.address text (Target.ofAddress text), rest)
  | none, some (text, rest), _ =>
    some (.address text (Target.ofAddress ("mailto:".toList ++ text)), rest)
  | none, none, some rest =>
    some (.verbatim .htmlInline ('<' :: s.take (s.length - rest.length)), rest)
  | none, none, none => none

def target? (ds : List Definition) (label rest : Chars) : Option (Target × Chars) :=
  let direct? := match rest with
    | '(' :: s => Target.inParentheses? s
    | _ => none
  let named? : Option (Target × Chars) := match rest with
    | '[' :: ']' :: after => (Definition.find? ds label).map fun t => (t, after)
    | '[' :: s =>
      match Target.label? s with
      | some (other, after) => (Definition.find? ds other).map fun t => (t, after)
      | none => (Definition.find? ds label).map fun t => (t, rest)
    | _ => (Definition.find? ds label).map fun t => (t, rest)
  match direct? with
  | some found => some found
  | none => named?

def close? (ds : List Definition) (rest : Chars) (b : Bracket) : Option (Piece × Chars) :=
  let label := b.source.take (b.source.length - rest.length - 1)
  (if b.active then target? ds label rest else none).bind fun (target, after) =>
    let p : Piece := .reference b.kind target b.pieces.reverse
    if p.isTooDeep then none else some (p, after)

/-- Handles a closing bracket, given the text after it; and tells what text is left. -/
def closeBracket (ds : List Definition) (rest : Chars) (st : Reading) : Reading × Chars :=
  match st.brackets with
  | [] => (st.push (.plain [']']), rest)
  | b :: bs =>
    match close? ds rest b with
    | none => ((({ st with brackets := bs } : Reading).pushAll b.flat).push (.plain [']']), rest)
    | some (p, after) =>
      let around := match b.kind with
        | .link => bs.map Bracket.deactivate
        | .image => bs
      (({ st with brackets := around } : Reading).push p, after)

def isOrdinary (c : Char) : Bool :=
  !(c == '\\' || c == '\n' || c == '\x60' || c == '<' || c == '!' || c == '[' || c == ']')

/-- Plain text up to the end of a line or to a character that may begin something. White space
around the end of a line belongs to its break, which is a hard one if two spaces stand before it. -/
def plainRun (s : Chars) (st : Reading) : Reading × Chars :=
  let run := s.takeWhile isOrdinary
  match s.drop run.length with
  | '\n' :: rest =>
    let text := Text.dropEndWhile (· == ' ') run
    let st := if text.isEmpty then st else st.push (.plain text)
    (st.push (.sign (if text.length + 2 ≤ run.length then .linebreak else .softbreak)),
      rest.dropWhile isSpace)
  | rest => (if run.isEmpty then st else st.push (.plain run), rest)

def step (ds : List Definition) (c : Char) (cs : Chars) (st : Reading) : Reading × Chars :=
  match c with
  | '\\' =>
    match cs with
    | '\n' :: rest => (st.push (.sign .linebreak), rest.dropWhile isSpace)
    | d :: rest =>
      if isPunctuation d then (st.push (.escaped [d]), rest) else (st.push (.plain [c]), cs)
    | [] => (st.push (.plain [c]), cs)
  | '\x60' =>
    let more := cs.takeWhile (· == '\x60')
    let rest := cs.drop more.length
    match code? (more.length + 1) rest with
    | some (text, rest) => (st.push (.verbatim .code text), rest)
    | none => (st.push (.plain (c :: more)), rest)
  | '<' =>
    match angle? cs with
    | some (p, rest) => (st.push p, rest)
    | none => (st.push (.plain [c]), cs)
  | '!' =>
    match cs with
    | '[' :: rest =>
      ({ st with brackets := { kind := .image, source := rest } :: st.brackets }, rest)
    | _ => (st.push (.plain [c]), cs)
  | '[' => ({ st with brackets := { kind := .link, source := cs } :: st.brackets }, cs)
  | ']' => closeBracket ds cs st
  | c => plainRun (c :: cs) st

/-- Reads a text of which the first `skip` characters are done. -/
def readFrom (ds : List Definition) : (skip : Nat) → Chars → Reading → Reading
  | _, [], st => st
  | skip + 1, _ :: cs, st => readFrom ds skip cs st
  | 0, c :: cs, st =>
    let (st, rest) := step ds c cs st
    readFrom ds (cs.length - rest.length) cs st

/-- The pieces of a text. Brackets that are still open are text. -/
def pieces (ds : List Definition) (s : Chars) : List Piece :=
  let st := readFrom ds 0 s {}
  let flat :=
    st.brackets.reverse.foldl (fun (st : Reading) b => st.pushAll b.flat) { base := st.base }
  flat.base.reverse

def tokens (ds : List Definition) (s : Chars) : List Token :=
  Piece.tokensOf (pieces ds s)

end Inline
end Canonmark.Markdown
