import Canonmark.Markdown.Token
import Canonmark.Text.Alphanumeric

/-! Emphasis. Runs of `*` and `_` are matched within one level of inline content: a run that can
close is matched with the nearest one before it that can open, two signs of each at a time where
both have two, else one, as long as nothing is nested too deep. -/
namespace Canonmark.Markdown

/-- A part of a level of inline content. Escaped text holds no signs of emphasis. -/
inductive Part where
  | plain (text : Chars)
  | escaped (text : Chars)
  | token (t : Token)
  deriving Inhabited, Repr

namespace Emphasis

structure Run where
  sign : Char
  length : Nat
  opens : Bool
  closes : Bool
  deriving DecidableEq, Repr

inductive Element where
  | text (text : Chars)
  | token (t : Token)
  | run (r : Run)
  deriving Inhabited, Repr

def isSign (c : Char) : Bool := c == '*' || c == '_'

/-- Signs that are neither white space nor letters nor digits. -/
def isPunct (c : Char) : Bool := !Text.isBlank c && !Text.isAlphanumeric c

/-- Whether a run stands before something: it is not followed by white space, and by punctuation
only where it does not follow a letter. -/
def flanksLeft (before after : Char) : Bool :=
  !Text.isBlank after && (!isPunct after || Text.isBlank before || isPunct before)

def flanksRight (before after : Char) : Bool := flanksLeft after before

/-- A run between two characters. Underscores neither open nor close within a word. -/
def Run.of (sign : Char) (length : Nat) (before after : Char) : Run :=
  let left := flanksLeft before after
  let right := flanksRight before after
  if sign == '_' then
    ⟨sign, length, left && (!right || isPunct before), right && (!left || isPunct after)⟩
  else ⟨sign, length, left, right⟩

def sameStretch (a b : Char) : Bool := if isSign a then a == b else !isSign b

inductive Stretch where
  | loose (text : Chars)
  | fixed (text : Chars)
  | token (t : Token)

def stretchesOf : Part → List Stretch
  | .plain text => (text.splitBy sameStretch).map .loose
  | .escaped text => [.fixed text]
  | .token t => [.token t]

/-- What a stretch shows to a run beside it. Breaks count as line ends, other tokens as
punctuation. -/
def edgeOfToken : Token → Char
  | .sign _ => '\n'
  | _ => '-'

def firstOf : List Stretch → Char
  | [] => '\n'
  | .loose text :: _ | .fixed text :: _ => text.headD '\n'
  | .token t :: _ => edgeOfToken t

def lastOf : Stretch → Char
  | .loose text | .fixed text => text.getLastD '\n'
  | .token t => edgeOfToken t

def elementOf (before after : Char) : Stretch → Element
  | .loose text =>
    match text with
    | [] => .text []
    | c :: cs => if isSign c then .run (.of c (cs.length + 1) before after) else .text (c :: cs)
  | .fixed text => .text text
  | .token t => .token t

def elementsFrom (before : Char) : List Stretch → List Element
  | [] => []
  | s :: ss => elementOf before (firstOf ss) s :: elementsFrom (lastOf s) ss

/-- The elements of a level. Its ends count as line ends. -/
def elements (ps : List Part) : List Element := elementsFrom '\n' (ps.flatMap stretchesOf)

def textToken (text : Chars) : Token := .text (String.ofList text)

/-- An open run with the signs that are left of it, and the content after it, the latest first, with
its depth. -/
structure Frame where
  run : Run
  left : Nat
  content : List Token := []
  depth : Nat := 0

structure Matching where
  frames : List Frame := []
  base : List Token := []

namespace Matching

def push (m : Matching) (t : Token) : Matching :=
  match m.frames with
  | [] => { m with base := t :: m.base }
  | f :: fs =>
    { m with frames := { f with content := t :: f.content, depth := max t.depth f.depth } :: fs }

end Matching

namespace Frame

def flat (f : Frame) : List Token := f.content ++ [textToken (List.replicate f.left f.run.sign)]

/-- Whether a run can close a frame. Where one of the two can both open and close, their lengths
must not add up to a multiple of three, unless both are such. -/
def closedBy (f : Frame) (r : Run) : Bool :=
  f.run.sign == r.sign &&
    !((f.run.closes || r.opens) && (f.run.length + r.length) % 3 == 0 &&
      !(f.run.length % 3 == 0 && r.length % 3 == 0))

/-- The innermost frame that a run can close, with all that is inside it flat; and the frames around
it. -/
def find? (r : Run) : List Frame → Option (Frame × List Frame)
  | [] => none
  | f :: fs =>
    if f.closedBy r then some (f, fs)
    else (find? r fs).map fun (g, around) =>
      ({ g with content := f.flat ++ g.content, depth := max f.depth g.depth }, around)

end Frame

def wrap (size : Nat) (content : List Token) : Token :=
  .wrapper (if size == 2 then .strong else .emph) content.reverse

/-- Matches a run of which `left` signs are left, at most `fuel` times; and the signs then left.
What already is `limit` deep is put into no emphasis. -/
def closeRun (limit : Nat) (r : Run) : (fuel left : Nat) → Matching → Matching × Nat
  | 0, left, m => (m, left)
  | fuel + 1, left, m =>
    if left == 0 then (m, 0)
    else
      match Frame.find? r m.frames with
      | none => (m, left)
      | some (f, around) =>
        if limit ≤ f.depth then (m, left)
        else
          let size := if 2 ≤ f.left && 2 ≤ left then 2 else 1
          let node := wrap size f.content
          let m : Matching :=
            if f.left == size then
              ({ m with frames := around } : Matching).push (textToken []) |>.push node
            else
              let f := { f with left := f.left - size, content := [node], depth := f.depth + 1 }
              { m with frames := f :: around }
          closeRun limit r fuel (left - size) m

/-- Takes in a run: it closes what it can, and what is left of it may open. -/
def addRun (limit : Nat) (r : Run) (m : Matching) : Matching :=
  let (m, left) := if r.closes then closeRun limit r r.length r.length m else (m, r.length)
  if r.opens && 0 < left then { m with frames := { run := r, left } :: m.frames }
  else m.push (textToken (List.replicate left r.sign))

def add (limit : Nat) (m : Matching) : Element → Matching
  | .text text => m.push (textToken text)
  | .token t => m.push t
  | .run r => addRun limit r m

def Matching.tokens (m : Matching) : List Token :=
  ((m.frames.flatMap Frame.flat) ++ m.base).reverse

def completesReference (a b : Chars) : Bool :=
  a.getLast? == some '&' && (Text.referenceBody? b).isSome

def joinTexts (pending : Chars) : List Token → List Token
  | [] => if pending.isEmpty then [] else [textToken pending]
  | .text raw :: ts =>
    let text := raw.toList
    if completesReference pending text then textToken pending :: joinTexts text ts
    else joinTexts (pending ++ text) ts
  | t :: ts => (if pending.isEmpty then [] else [textToken pending]) ++ t :: joinTexts [] ts

def plainToken : Part → Token
  | .plain text | .escaped text => textToken text
  | .token t => t

def holdsSigns : Part → Bool
  | .plain text => text.any isSign
  | _ => false

/-- The tokens of a level of inline content, in which emphasis nests at most `limit` deep. Where
there are no signs, the parts stay as they are. -/
def tokensOf (limit : Nat) (ps : List Part) : List Token :=
  if ps.any holdsSigns then joinTexts [] ((elements ps).foldl (add limit) {}).tokens
  else ps.map plainToken

end Emphasis
end Canonmark.Markdown
