import Canonmark.Proofs.Builder.Frame
import Canonmark.Proofs.Node.ClassTag

/-! Elements as ordered trees, their event streams, and what the builder makes of these. An element
without a document in it adds its tree to the node around it and leaves all else as it was; one with
a document in it never gives the stack back its height. -/
namespace Canonmark

/-- An element of markup. Its text comes before its children. -/
inductive Element where
  | mk (name : String) (attributes : Members) (chunks : List String) (children : List Element)

namespace Element

mutual

/-- The events of an element. -/
def events : Element → List Event
  | mk name attributes chunks children =>
    Event.element name attributes (chunks.map .text ++ eventsOf children)

def eventsOf : List Element → List Event
  | [] => []
  | e :: es => events e ++ eventsOf es

end

mutual

/-- The node of an element, if text is handled by `rules`. -/
def node (rules : TextRules) : Element → Json
  | mk name attributes chunks children =>
    let tag := ClassTag.ofElement name
    .obj (chunks.foldl (Builder.giveText rules tag) ((Schema.classKey, .str tag) :: attributes) ++
      Schema.childrenMember (nodes rules children))

def nodes (rules : TextRules) : List Element → List Json
  | [] => []
  | e :: es => node rules e :: nodes rules es

end

/-- Names that are kept for what the builder adds itself. -/
def reserved : List String := [Schema.classKey, Schema.childrenKey, "text", "tag"]

/-- Names of elements are small words joined by underscores, and no attribute has a reserved name or
occurs twice. -/
inductive Valid : Element → Prop
  | mk {name : String} {attributes : Members} {children : List Element} (chunks : List String)
      (snake : ClassTag.SnakeCase name) (once : attributes.names.Nodup)
      (free : ∀ n ∈ attributes.names, n ∉ reserved) (below : ∀ e ∈ children, Valid e) :
      Valid (mk name attributes chunks children)

/-- There is no document in an element, nor is it one. -/
inductive DocumentFree : Element → Prop
  | mk {name : String} {attributes : Members} {chunks : List String} {children : List Element}
      (other : name ≠ Builder.documentName) (below : ∀ e ∈ children, DocumentFree e) :
      DocumentFree (mk name attributes chunks children)

/-- An element is a document, and there is none in it. -/
def IsDocument : Element → Prop
  | mk name _ _ children => name = Builder.documentName ∧ ∀ e ∈ children, DocumentFree e

theorem snakeCase_documentName : ClassTag.SnakeCase Builder.documentName :=
  ClassTag.snakeCase_of_splitOn (by decide)

variable {name : String} {attributes : Members} {rules : TextRules}

theorem events_mk (chunks : List String) (children : List Element) :
    (mk name attributes chunks children).events =
      .openTag name attributes ::
      (chunks.map .text ++ (eventsOf children ++ [.closeTag name])) := by
  rw [events, Event.element, List.cons_append, List.append_assoc]

/-- A stack on whose innermost node a child is opened. -/
def opened : Builder.Stack → Builder.Stack
  | [] => []
  | parent :: rest => parent.openChildren :: rest

theorem length_opened (stack : Builder.Stack) : (opened stack).length = stack.length := by
  cases stack <;> rfl

/-- The frame of an element after its text and the nodes `vs`. -/
def frame (rules : TextRules) (name : String) (attributes : Members) (chunks : List String)
    (vs : List Json) : Frame :=
  Frame.addChildren ⟨chunks.foldl (Builder.giveText rules (ClassTag.ofElement name))
    ((Schema.classKey, .str (ClassTag.ofElement name)) :: attributes), none⟩ vs

theorem text_not_mem (free : ∀ n ∈ attributes.names, n ∉ reserved) (v : Json) :
    "text" ∉ Members.names ((Schema.classKey, v) :: attributes) := by
  rw [Members.names_cons, List.mem_cons, not_or]
  exact ⟨by decide, fun h => free _ h (by decide)⟩

theorem takesText (free : ∀ n ∈ attributes.names, n ∉ reserved) (tag : String) :
    Builder.TakesText tag ((Schema.classKey, .str tag) :: attributes) where
  cls := Members.get?_cons_self ..
  text := by
    intro v hv
    rw [Members.get?_eq_none_iff.mpr (text_not_mem free _)] at hv
    cases hv
  childless := by
    rw [Members.names_cons, List.mem_cons, not_or]
    exact ⟨by decide, fun h => free _ h (by decide)⟩

theorem classValue_frame (free : ∀ n ∈ attributes.names, n ∉ reserved) (chunks : List String)
    (vs : List Json) :
    (frame rules name attributes chunks vs).classValue = .str (ClassTag.ofElement name) := by
  have h := (takesText free (ClassTag.ofElement name)).foldl rules chunks
  rw [frame, Frame.classValue_addChildren, Frame.classValue, h.cls]
  rfl

theorem node_frame (free : ∀ n ∈ attributes.names, n ∉ reserved) (chunks : List String)
    (children : List Element) :
    (frame rules name attributes chunks (nodes rules children)).node =
      node rules (mk name attributes chunks children) := by
  have h := (takesText free (ClassTag.ofElement name)).foldl rules chunks
  rw [frame, Frame.node_addChildren h.childless, node]

/-- The frame of a new node holds its class and its attributes. -/
theorem openTag_eq (once : attributes.names.Nodup) (free : Schema.classKey ∉ attributes.names)
    (stack : Builder.Stack) :
    Builder.openTag stack name attributes =
      ⟨(Schema.classKey, .str (ClassTag.ofElement name)) :: attributes, none⟩ :: opened stack := by
  have hnew : ∀ n ∈ attributes.names,
      n ∉ Members.names [(Schema.classKey, .str (ClassTag.ofElement name))] := by
    intro n hn hmem
    have hkey : n = Schema.classKey := by simpa using hmem
    exact free (hkey ▸ hn)
  have hset := Members.foldl_set_of_disjoint once hnew
  unfold Builder.openTag
  dsimp only
  rw [hset]
  cases stack <;> rfl

/-- The start of an element and its text leave its frame on the stack. -/
theorem feed_start (once : attributes.names.Nodup) (free : ∀ n ∈ attributes.names, n ∉ reserved)
    (stack : Builder.Stack) (chunks : List String) (es : List Event) :
    Builder.feed (some rules) stack (.openTag name attributes :: (chunks.map .text ++ es)) =
      Builder.feed (some rules) (frame rules name attributes chunks [] :: opened stack) es := by
  rw [Builder.feed_cons]
  simp only [Builder.step, openTag_eq once fun h => free _ h (by decide)]
  exact Builder.feed_append_of_none
    (Builder.feed_chunks (takesText free (ClassTag.ofElement name)) rules _ chunks) es

/-- Once the children have joined an element, all that is left of its stream is its end. -/
theorem feed_mk (once : attributes.names.Nodup) (free : ∀ n ∈ attributes.names, n ∉ reserved)
    {stack : Builder.Stack} {chunks : List String} {children : List Element}
    (below : Builder.feed (some rules) (frame rules name attributes chunks [] :: opened stack)
      (eventsOf children) =
        ((frame rules name attributes chunks []).addChildren (nodes rules children) :: opened stack,
          none)) :
    Builder.feed (some rules) stack (mk name attributes chunks children).events =
      Builder.feed (some rules)
        (frame rules name attributes chunks (nodes rules children) :: opened stack)
        [.closeTag name] := by
  rw [events_mk, feed_start once free, Builder.feed_append_of_none below]
  rfl

theorem closeTag_eq {head : Frame} (hhead : head.classValue = .str (ClassTag.ofElement name))
    (other : name ≠ Builder.documentName) (parent : Frame) (rest : Builder.Stack) :
    Builder.closeTag (head :: parent :: rest) name = .ok (parent.addChild head.node :: rest) := by
  simp [Builder.closeTag, hhead, other]

theorem closeTag_bottom {head : Frame} (hhead : head.classValue = .str (ClassTag.ofElement name))
    (other : name ≠ Builder.documentName) : Builder.closeTag [head] name = .ok [] := by
  simp [Builder.closeTag, hhead, other]

/-- A document stays on the stack. -/
theorem closeTag_document {head : Frame}
    (hhead : head.classValue = .str (ClassTag.ofElement Builder.documentName))
    (rest : Builder.Stack) :
    Builder.closeTag (head :: rest) Builder.documentName = .ok (head :: rest) := by
  simp [Builder.closeTag, hhead]

/-- Over a document that has stayed on the stack, no other node can be closed. -/
theorem closeTag_over_document {head : Frame}
    (snake : ClassTag.SnakeCase name) (other : name ≠ Builder.documentName)
    (hhead : head.classValue = .str (ClassTag.ofElement Builder.documentName))
    (rest : Builder.Stack) :
    Builder.closeTag (head :: rest) name =
      .error (.mismatch name (ClassTag.shortName (ClassTag.ofElement Builder.documentName))) := by
  have hne : ClassTag.ofElement Builder.documentName ≠ ClassTag.ofElement name :=
    fun h => other (ClassTag.ofElement_injOn snakeCase_documentName snake h).symm
  simp [Builder.closeTag, hhead, hne]

variable (rules)

mutual

/-- An element without documents adds its node to the children of the node around it. -/
theorem feed_events :
    ∀ {e : Element}, e.Valid → e.DocumentFree → ∀ (parent : Frame) (rest : Builder.Stack),
      Builder.feed (some rules) (parent :: rest) e.events =
        (parent.openChildren.addChild (e.node rules) :: rest, none)
  | mk name attributes chunks children, .mk _ _ once free below, .mk other clear, parent, rest => by
    have hclass : (frame rules name attributes chunks (nodes rules children)).classValue =
        .str (ClassTag.ofElement name) := classValue_frame free chunks _
    have hclose := closeTag_eq hclass other parent.openChildren rest
    rw [feed_mk once free (feed_eventsOf below clear _ _), opened, Builder.feed_cons, Builder.step,
      hclose, node_frame free]
    rfl

theorem feed_eventsOf :
    ∀ {es : List Element}, (∀ e ∈ es, e.Valid) → (∀ e ∈ es, e.DocumentFree) →
      ∀ (parent : Frame) (rest : Builder.Stack),
      Builder.feed (some rules) (parent :: rest) (eventsOf es) =
        (parent.addChildren (nodes rules es) :: rest, none)
  | [], _, _, _, _ => rfl
  | e :: es, valid, free, parent, rest => by
    have he := feed_events (valid e (by simp)) (free e (by simp)) parent rest
    rw [eventsOf, Builder.feed_append_of_none he, nodes, Frame.addChildren_cons]
    exact feed_eventsOf (fun d hd => valid d (by simp [hd])) (fun d hd => free d (by simp [hd])) _ _

end

end Element
end Canonmark
