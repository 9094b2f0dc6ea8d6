import Canonmark.Json.Value

/-! Flat streams of markup events. -/
namespace Canonmark

/-- An event of a stream. A value that is none of the three kinds is unknown. -/
inductive Event where
  | openTag (name : String) (attributes : Members)
  | text (content : String)
  /-- Content that is no text. -/
  | value (content : Json)
  | closeTag (name : String)
  | unknown (value : Json)
  deriving Inhabited, Repr

namespace Event

def element (name : String) (attributes : Members) (content : List Event) : List Event :=
  .openTag name attributes :: content ++ [.closeTag name]

/-- The event of content; what is empty or nothing is none. -/
def ofContent (content : Json) : List Event :=
  match content with
  | .str "" => []
  | .str s => [.text s]
  | v => if v.truthy then [.value v] else []

def leaf (name : String) (attributes : Members) (text : String) : List Event :=
  element name attributes (if text == "" then [] else [.text text])

end Event
end Canonmark
