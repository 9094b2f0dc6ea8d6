import Canonmark.Json.Value
import Canonmark.Text.Encoding

/-! What a reader can be given, and the text that it holds. -/
namespace Canonmark

inductive Source where
  | text (text : String)
  | textStream (text : String)
  | bytes (bytes : Text.Bytes)
  | byteArray (bytes : Text.Bytes)
  | byteStream (bytes : Text.Bytes)
  | file (bytes : Text.Bytes)
  | value (value : Json)

/-- What a detector says about the encoding of bytes. The name of an encoding holds no NUL, so that
it can be looked up. -/
structure Guess where
  encoding : Option String
  confidence : Json

namespace Source

/-- A detector sees only the first bytes. -/
def sampleSize : Nat := 8192

def trust : Binary64 := .ofDecimal false 7 (-1)

def isTrusted : Json → Bool
  | .int i => !Binary64.intLessThan i trust
  | .float x => !x.isZero && !x.less trust
  | .bool b => b
  | _ => false

def trustedEncoding (guess : Option Guess) : Option String :=
  match guess with
  | none => none
  | some g =>
    match g.encoding with
    | none | some "" => none
    | some name => if isTrusted g.confidence then some name else none

/-- The text of bytes: UTF-8, with or without a mark, where it can be; else the encoding that the
detector finds; else a character per byte. -/
def decode (detect : Text.Bytes → Option Guess) (bs : Text.Bytes) : Chars :=
  match Text.Encoding.utf8? bs with
  | some s => Text.Encoding.dropMark s
  | none =>
    let guess := trustedEncoding (detect (bs.take sampleSize))
    (guess.bind (Text.Encoding.named? · bs)).getD (Text.Encoding.latin1 bs)

/-- The text of a source; for a value that holds none, the name of its type. -/
def load (detect : Text.Bytes → Option Guess) : Source → Except String String
  | .text s | .textStream s | .value (.str s) => .ok s
  | .bytes bs | .byteArray bs | .byteStream bs | .file bs => .ok (String.ofList (decode detect bs))
  | .value v => .error v.typeName

end Source
end Canonmark
