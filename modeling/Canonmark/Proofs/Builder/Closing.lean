import Canonmark.Proofs.Builder.Revision

/-! Closing by name. A builder compares classes, not names: the class that a close tag stands for
with that of the innermost node. Since different names have different classes, a node is closed by
its own name and by no other one, unless an attribute has taken the place of its class. -/
namespace Canonmark.Builder

open Schema (classKey)
open ClassTag (SnakeCase)

/-- The name and the attributes of a tag that opens a node. -/
abbrev Tag := String × Members

/-- The tags of the open nodes, the innermost first, after one more entry of the record. -/
def track (tags : List Tag) : Entry → List Tag
  | (.openTag name attributes, _) => (name, attributes) :: tags
  | (.reset, _) => []
  | e => if isClosing e then tags.tail else tags

/-- The tags of the nodes that are open after all that has been done. -/
def openTags (record : List Entry) : List Tag := record.foldl track []

/-- The class of a node when it is opened. -/
def classOf (tag : Tag) : Json := Frame.classValue ⟨openedMembers tag.1 tag.2, none⟩

/-- No attribute brings a class other than that of the name. -/
def KeepsClass (tag : Tag) : Prop :=
  ∀ v, (classKey, v) ∈ tag.2 → v = .str (ClassTag.ofElement tag.1)

theorem classOf_of_keepsClass {tag : Tag} (keeps : KeepsClass tag) :
    classOf tag = .str (ClassTag.ofElement tag.1) := by
  rw [classOf, Frame.classValue, openedMembers,
    Members.get?_foldl_set_of_forall keeps (Members.get?_cons_self ..), Option.getD_some]

theorem classes_openTag (stack : Stack) (name : String) (attributes : Members) :
    (openTag stack name attributes).map Frame.classValue =
      classOf (name, attributes) :: stack.map Frame.classValue := by
  rw [openTag_eq_cons, List.map_cons, classOf]
  cases stack with
  | nil => rfl
  | cons parent rest =>
    rw [Element.opened, List.map_cons, Frame.classValue_openChildren, List.map_cons]

theorem classes_pop (stack : Stack) :
    (pop stack).map Frame.classValue = (stack.map Frame.classValue).tail := by
  match stack with
  | [] | [_] | _ :: _ :: _ => rfl

/-- The class that a node was opened with stays. -/
theorem classes_outcome {stack stack' : Stack} {a : Action}
    {fault? : Option Fault} {tags : List Tag} (h : Outcome stack a stack' fault?)
    (classes : stack.map Frame.classValue = tags.map classOf) :
    stack'.map Frame.classValue = (track tags (a, fault?)).map classOf := by
  cases h with
  | opened name attributes => rw [classes_openTag, classes, track, List.map_cons]
  | told content here retold =>
    subst here
    rw [List.map_cons, Frame.classValue_of_retold retold, ← List.map_cons, classes]
    rfl
  | closed other here =>
    rw [classes_pop, classes]
    simp [track, isClosing, other, List.map_tail]
  | kept other noReset stays =>
    rw [classes]
    cases a with
    | openTag name attributes => exact absurd rfl other
    | reset => exact absurd rfl noReset
    | _ => simp only [track, if_neg stays]
  | dropped => rfl

theorem classes_run (rules : Option TextRules) (actions : List Action) :
    (Session.run rules actions).stack.map Frame.classValue =
      (openTags (Session.run rules actions).record).map classOf := by
  induction actions using List.reverseRecOn with
  | nil => rfl
  | append_singleton actions a ih =>
    obtain ⟨fault?, hrecord, houtcome⟩ := outcome_perform rules (Session.run rules actions) a
    rw [Session.run_concat, hrecord, openTags, List.foldl_append, List.foldl_cons, List.foldl_nil]
    exact classes_outcome houtcome ih

/-- A node with the class of a name is closed by this name only. -/
theorem closeTag_of_class {head : Frame} {m n : String} (hm : SnakeCase m) (hn : SnakeCase n)
    (hclass : head.classValue = .str (ClassTag.ofElement m)) (rest : Stack) :
    closeTag (head :: rest) n =
      if n = m then .ok (if n = documentName then head :: rest else pop (head :: rest))
      else .error (.mismatch n (ClassTag.shortName (ClassTag.ofElement m))) := by
  unfold closeTag
  simp only [hclass]
  by_cases h : n = m
  · subst h
    rw [if_pos rfl, if_neg (by simp)]
    by_cases hdocument : n = documentName
    · rw [if_pos hdocument, if_pos (beq_iff_eq.mpr hdocument)]
    · rw [if_neg hdocument, if_neg (by simpa using hdocument)]
      cases rest <;> rfl
  · have hne : ClassTag.ofElement m ≠ ClassTag.ofElement n :=
      fun heq => h (ClassTag.ofElement_injOn hm hn heq).symm
    rw [if_neg h, if_pos (bne_iff_ne.mpr hne)]

/-- Names have the same class only if they are the same. So, whatever has been done with a builder,
the innermost node is closed by the name that opened it and by no other name, if its class has not
been replaced. The short form of a class is the words of its name, each with a capital. -/
theorem closeTag_by_name {m n : String} (hm : SnakeCase m) (hn : SnakeCase n) :
    (ClassTag.ofElement m = ClassTag.ofElement n → m = n) ∧
    (∀ (rules : Option TextRules) (actions : List Action) (attributes : Members),
      (openTags (Session.run rules actions).record).head? = some (m, attributes) →
      KeepsClass (m, attributes) →
      closeTag (Session.run rules actions).stack n =
        if n = m then
          .ok (if n = documentName then (Session.run rules actions).stack
            else pop (Session.run rules actions).stack)
        else .error (.mismatch n (ClassTag.shortName (ClassTag.ofElement m)))) ∧
    ClassTag.shortName (ClassTag.ofElement m) =
      String.ofList ((m.toList.splitOn '_').flatMap ClassTag.capital) := by
  refine ⟨ClassTag.ofElement_injOn hm hn, ?_, ClassTag.shortName_ofElement hm⟩
  intro rules actions attributes innermost keeps
  obtain ⟨tags, htags⟩ := List.head?_eq_some_iff.mp innermost
  have hclasses := classes_run rules actions
  rw [htags, List.map_cons, classOf_of_keepsClass keeps] at hclasses
  obtain ⟨head, rest, hstack, hhead, -⟩ := List.map_eq_cons_iff.mp hclasses
  rw [hstack, closeTag_of_class hm hn hhead]

/-- A node in a document, in which a further one is opened, is told a text and closed at the second
try. -/
def letterActions : List Action := [
  .openTag "document" [], .openTag "a_b_c" [("id", .str "d")], .openTag "ab_c" [], .text "e",
  .closeTag "a_b_c", .closeTag "ab_c"]

theorem closeTag_letters :
    SnakeCase "a_b_c" ∧ SnakeCase "ab_c" ∧
      (openTags (Session.run (some {}) letterActions).record).head? =
        some ("a_b_c", [("id", .str "d")]) ∧
      KeepsClass ("a_b_c", [("id", .str "d")]) ∧
      ClassTag.shortName (ClassTag.ofElement "a_b_c") = "ABC" ∧
      closeTag (Session.run (some {}) letterActions).stack "ab_c" =
        .error (.mismatch "ab_c" "ABC") := by
  have hm : SnakeCase "a_b_c" := ClassTag.snakeCase_of_splitOn (by decide)
  have hn : SnakeCase "ab_c" := ClassTag.snakeCase_of_splitOn (by decide)
  have innermost : (openTags (Session.run (some {}) letterActions).record).head? =
      some ("a_b_c", [("id", .str "d")]) := by rfl
  have keeps : KeepsClass ("a_b_c", [("id", .str "d")]) := by
    intro v hv
    simp [Schema.classKey] at hv
  obtain ⟨-, hclose, hshort⟩ := closeTag_by_name hm hn
  have hABC : ClassTag.shortName (ClassTag.ofElement "a_b_c") = "ABC" := hshort.trans (by decide)
  refine ⟨hm, hn, innermost, keeps, hABC, ?_⟩
  rw [hclose _ _ _ innermost keeps, if_neg (by decide), hABC]

/-- A paragraph that an attribute makes an item. -/
def replacedClass : Members := [(classKey, .str "org.accordproject.commonmark.Item")]

/-- Where an attribute has replaced the class, the node is closed by the name of the new class, and
no longer by its own. -/
theorem closeTag_of_replacedClass :
    SnakeCase "paragraph" ∧ SnakeCase "item" ∧
      openTags (Session.run (some {}) [.openTag "paragraph" replacedClass]).record =
        [("paragraph", replacedClass)] ∧
      closeTag (Session.run (some {}) [.openTag "paragraph" replacedClass]).stack "paragraph" =
        .error (.mismatch "paragraph" "Item") ∧
      closeTag (Session.run (some {}) [.openTag "paragraph" replacedClass]).stack "item" = .ok [] :=
  ⟨ClassTag.snakeCase_of_splitOn (by decide), ClassTag.snakeCase_of_splitOn (by decide),
    rfl, rfl, rfl⟩

end Canonmark.Builder
