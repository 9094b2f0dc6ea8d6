import Canonmark.Node.Basic

/-! Neighbouring nodes of one inline kind written as one. -/
namespace Canonmark.Markdown.Merge

mutual

/-- Adds a node to merged siblings. Text and code join the last sibling of their kind, and the
children of emphasis join the children of the last sibling of its kind; the children of a list stay
apart. -/
def push (siblings : List Node) : Node → List Node
  | .leaf (.text t) span =>
    match siblings.getLast? with
    | some (.leaf (.text s) _) => siblings.dropLast ++ [.leaf (.text (s ++ t)) none]
    | _ => siblings ++ [.leaf (.text t) span]
  | .leaf (.code t) span =>
    match siblings.getLast? with
    | some (.leaf (.code s) _) => siblings.dropLast ++ [.leaf (.code (s ++ t)) none]
    | _ => siblings ++ [.leaf (.code t) span]
  | .leaf l span => siblings ++ [.leaf l span]
  | .branch .emph span children =>
    match siblings.getLast? with
    | some (.branch .emph _ before) =>
      siblings.dropLast ++ [.branch .emph none (pushAll before children)]
    | _ => siblings ++ [.branch .emph span (pushAll [] children)]
  | .branch .strong span children =>
    match siblings.getLast? with
    | some (.branch .strong _ before) =>
      siblings.dropLast ++ [.branch .strong none (pushAll before children)]
    | _ => siblings ++ [.branch .strong span (pushAll [] children)]
  | .branch (.list data) span children => siblings ++ [.branch (.list data) span (apart children)]
  | .branch c span children => siblings ++ [.branch c span (pushAll [] children)]
  | .foreign v => siblings ++ [.foreign v]

def pushAll (siblings : List Node) : List Node → List Node
  | [] => siblings
  | n :: ns => pushAll (push siblings n) ns

def apart : List Node → List Node
  | [] => []
  | n :: ns => push [] n ++ apart ns

end

end Merge

/-- A node with all its inline content merged. -/
def merged : Node → Node
  | .branch (.list data) span children => .branch (.list data) span (Merge.apart children)
  | .branch c span children => .branch c span (Merge.pushAll [] children)
  | n => n

end Canonmark.Markdown
