import Canonmark.Builder
import Canonmark.Proofs.Json.Members
import Mathlib.Tactic.SplitIfs

/-! What events do to the innermost node in progress: text changes its members, and nodes that are
opened and closed in it join its children. -/
namespace Canonmark

/-- The member that holds children; nodes without children have none. -/
def Schema.childrenMember : List Json → Members
  | [] => []
  | v :: vs => [(childrenKey, .arr (v :: vs))]

namespace Frame

/-- A frame in which nodes have been opened and closed, one after the other. -/
def addChildren (f : Frame) (vs : List Json) : Frame :=
  vs.foldl (fun f v => f.openChildren.addChild v) f

@[simp] theorem addChildren_nil (f : Frame) : f.addChildren [] = f := rfl

@[simp] theorem addChildren_cons (f : Frame) (v : Json) (vs : List Json) :
    f.addChildren (v :: vs) = (f.openChildren.addChild v).addChildren vs := rfl

theorem addChildren_of_some (ms : Members) (before vs : List Json) :
    addChildren ⟨ms, some before⟩ vs = ⟨ms, some (before ++ vs)⟩ := by
  induction vs generalizing before with
  | nil => simp
  | cons v vs ih =>
    rw [addChildren_cons]
    change addChildren ⟨ms, some (before ++ [v])⟩ vs = _
    rw [ih, List.append_assoc, List.singleton_append]

@[simp] theorem classValue_openChildren (f : Frame) : f.openChildren.classValue = f.classValue := by
  obtain ⟨ms, children⟩ := f
  cases children with
  | none =>
    have hne : Schema.classKey ≠ Schema.childrenKey := by decide
    simp only [openChildren, classValue, Members.get?_set_ne hne]
  | some vs => rfl

@[simp] theorem classValue_addChild (f : Frame) (v : Json) :
    (f.addChild v).classValue = f.classValue := rfl

@[simp] theorem classValue_addChildren (f : Frame) (vs : List Json) :
    (f.addChildren vs).classValue = f.classValue := by
  induction vs generalizing f with
  | nil => rfl
  | cons v vs ih => rw [addChildren_cons, ih, classValue_addChild, classValue_openChildren]

/-- The node of a frame has its children after all other members. -/
theorem node_addChildren {ms : Members} (h : Schema.childrenKey ∉ ms.names) (vs : List Json) :
    (addChildren ⟨ms, none⟩ vs).node = .obj (ms ++ Schema.childrenMember vs) := by
  cases vs with
  | nil => simp [node, Schema.childrenMember]
  | cons v vs =>
    have hopen : (⟨ms, none⟩ : Frame).openChildren =
        ⟨ms ++ [(Schema.childrenKey, .arr [])], some []⟩ := by
      rw [openChildren, Members.set_of_not_mem h]
    rw [addChildren_cons, hopen]
    change (addChildren ⟨_, some [v]⟩ vs).node = _
    rw [addChildren_of_some]
    simp only [node, List.singleton_append, Members.set_append_of_not_mem h, Schema.childrenMember]

end Frame

namespace Builder

theorem feed_cons (rules : Option TextRules) (stack : Stack) (e : Event) (es : List Event) :
    feed rules stack (e :: es) =
      match step rules stack e with
      | .ok stack => feed rules stack es
      | .error f => (stack, some f) := rfl

/-- A stream is taken in part by part. -/
theorem feed_append (rules : Option TextRules) (stack : Stack) (es others : List Event) :
    feed rules stack (es ++ others) =
      match feed rules stack es with
      | (stack, none) => feed rules stack others
      | (stack, some f) => (stack, some f) := by
  induction es generalizing stack with
  | nil => rfl
  | cons e es ih =>
    rw [List.cons_append, feed_cons, feed_cons]
    cases step rules stack e with
    | ok stack => exact ih stack
    | error f => rfl

theorem feed_append_of_none {rules : Option TextRules} {stack stack' : Stack} {es : List Event}
    (h : feed rules stack es = (stack', none)) (others : List Event) :
    feed rules stack (es ++ others) = feed rules stack' others := by
  rw [feed_append, h]

/-- The text that a node has so far. -/
def textOf (ms : Members) : String :=
  match ms.get? "text" with
  | some (.str s) => s
  | _ => ""

/-- The members of a node of class `tag` after it has been given text. -/
def giveText (rules : TextRules) (tag : String) (ms : Members) (content : String) : Members :=
  let content := if rules.trim then Text.trimString content else content
  if content == "" then ms
  else
    let ms := if ClassTag.storesText tag then ms.set "text" (.str (textOf ms ++ content)) else ms
    if rules.tagInfo then addTag tag ms else ms

/-- The members of a node of class `tag` that takes text and that has no children yet. -/
structure TakesText (tag : String) (ms : Members) : Prop where
  cls : ms.get? Schema.classKey = some (.str tag)
  text : ∀ v, ms.get? "text" = some v → ∃ s, v = .str s
  childless : Schema.childrenKey ∉ ms.names

variable {tag : String} {ms : Members}

theorem addText_eq (h : TakesText tag ms) (content : String) :
    addText ms content = .ok (ms.set "text" (.str (textOf ms ++ content))) := by
  unfold addText textOf
  cases ht : ms.get? "text" with
  | none => simp
  | some v =>
    obtain ⟨s, rfl⟩ := h.text v ht
    rfl

theorem text_eq (h : TakesText tag ms) (rules : TextRules) (rest : Stack) (content : String) :
    text (some rules) (⟨ms, none⟩ :: rest) content =
      .ok (⟨giveText rules tag ms content, none⟩ :: rest) := by
  have hcls : (⟨ms, none⟩ : Frame).classValue = .str tag := by rw [Frame.classValue, h.cls]; rfl
  simp only [text, giveText, hcls, addText_eq h]
  split_ifs <;> rfl

private theorem TakesText.setText (h : TakesText tag ms) (s : String) :
    TakesText tag (ms.set "text" (.str s)) where
  cls := by rw [Members.get?_set_ne (by decide), h.cls]
  text := by
    intro v hv
    rw [Members.get?_set_self, Option.some.injEq] at hv
    exact ⟨s, hv.symm⟩
  childless := by
    rw [Members.mem_names_set, not_or]
    exact ⟨h.childless, by decide⟩

private theorem TakesText.addTag (h : TakesText tag ms) : TakesText tag (addTag tag ms) := by
  unfold Builder.addTag
  split
  · rename_i info _
    constructor
    · rw [Members.get?_set_ne (by decide), h.cls]
    · intro v hv
      rw [Members.get?_set_ne (by decide)] at hv
      exact h.text v hv
    · rw [Members.mem_names_set, not_or]
      exact ⟨h.childless, by decide⟩
  · exact h

theorem TakesText.giveText (h : TakesText tag ms) (rules : TextRules) (content : String) :
    TakesText tag (giveText rules tag ms content) := by
  unfold Builder.giveText
  generalize (if rules.trim then Text.trimString content else content) = c
  dsimp only
  split_ifs
  · exact h
  · exact (h.setText _).addTag
  · exact h.addTag
  · exact h.setText _
  · exact h

/-- Chunks of text change the innermost node one after the other. -/
theorem feed_chunks (h : TakesText tag ms) (rules : TextRules) (rest : Stack)
    (chunks : List String) :
    feed (some rules) (⟨ms, none⟩ :: rest) (chunks.map .text) =
      (⟨chunks.foldl (giveText rules tag) ms, none⟩ :: rest, none) := by
  induction chunks generalizing ms with
  | nil => rfl
  | cons c cs ih =>
    rw [List.map_cons, feed_cons]
    simp only [step, text_eq h]
    exact ih (h.giveText rules c)

theorem TakesText.foldl (h : TakesText tag ms) (rules : TextRules) (chunks : List String) :
    TakesText tag (chunks.foldl (Builder.giveText rules tag) ms) := by
  induction chunks generalizing ms with
  | nil => exact h
  | cons c cs ih => exact ih (h.giveText rules c)

/-- The member that holds the text of a node; only some classes store text, and no empty one. -/
def storedText (tag s : String) : Members :=
  if ClassTag.storesText tag && s != "" then [("text", .str s)] else []

private theorem giveText_plain (h : "text" ∉ ms.names) (tag s content : String) :
    giveText {} tag (ms ++ storedText tag s) content = ms ++ storedText tag (s ++ content) := by
  have hnone : ms.get? "text" = none := Members.get?_eq_none_iff.mpr h
  by_cases hc : content = ""
  · simp [giveText, hc]
  by_cases ht : ClassTag.storesText tag
  · by_cases hs : s = ""
    · simp [giveText, storedText, textOf, hc, ht, hs, hnone, Members.set_of_not_mem h]
    · have hget : Members.get? (ms ++ [("text", .str s)]) "text" = some (.str s) := by
        rw [Members.get?_append, hnone, Option.none_or, Members.get?_cons_self]
      simp [giveText, storedText, textOf, hc, ht, hs, hget, Members.set_append_of_not_mem h]
  · simp [giveText, storedText, hc, ht]

private theorem foldl_giveText_storedText (h : "text" ∉ ms.names) (tag s : String)
    (chunks : List String) :
    chunks.foldl (giveText {} tag) (ms ++ storedText tag s) =
      ms ++ storedText tag (s ++ String.join chunks) := by
  induction chunks generalizing s with
  | nil => rw [List.foldl_nil, String.join_nil, String.append_empty]
  | cons c cs ih =>
    rw [List.foldl_cons, giveText_plain h, ih, String.join_cons, String.append_assoc]

/-- Where text is neither trimmed nor looked into, the pieces of a node's text are joined. -/
theorem foldl_giveText_plain (h : "text" ∉ ms.names) (tag : String) (chunks : List String) :
    chunks.foldl (giveText {} tag) ms = ms ++ storedText tag (String.join chunks) := by
  have hempty : storedText tag "" = [] := by simp [storedText]
  simpa [hempty] using foldl_giveText_storedText h tag "" chunks

end Builder
end Canonmark
