import Canonmark.Proofs.Builder.Revision

/-! What is known about tags is added to the tree and changes nothing else in it. -/
namespace Canonmark

open Schema (classKey childrenKey)

/-- Classes whose nodes can tell about a tag. -/
def ClassTag.tellsTag (tag : String) : Bool := holdsHtml tag || tag == codeBlock

namespace Members

def tellsTag (ms : Members) : Bool :=
  match ms.get? classKey with
  | some (.str tag) => ClassTag.tellsTag tag
  | _ => false

theorem tellsTag_of_class {ms : Members} {tag : String} (h : ms.get? classKey = some (.str tag)) :
    ms.tellsTag = ClassTag.tellsTag tag := by
  rw [tellsTag, h]

theorem tellsTag_set {n : String} (other : n ≠ classKey) (ms : Members) (v : Json) :
    (ms.set n v).tellsTag = ms.tellsTag := by
  rw [tellsTag, tellsTag, get?_set_ne other.symm]

end Members

/-- The members without what is known about a tag, if the node can tell about one. -/
def dropTag (ms : Members) : Members := if ms.tellsTag then ms.erase "tag" else ms

theorem dropTag_set {n : String} (other : n ≠ classKey) (apart : n ≠ "tag") (ms : Members)
    (v : Json) : dropTag (ms.set n v) = (dropTag ms).set n v := by
  rw [dropTag, dropTag, Members.tellsTag_set other]
  split
  · rw [Members.erase_set_ne apart]
  · rfl

theorem get?_dropTag {n : String} (apart : n ≠ "tag") (ms : Members) :
    (dropTag ms).get? n = ms.get? n := by
  rw [dropTag]
  split
  · exact Members.get?_erase_ne apart ms
  · rfl

theorem dropTag_of_not_mem {ms : Members} (h : "tag" ∉ ms.names) : dropTag ms = ms := by
  rw [dropTag, Members.erase_of_not_mem h, ite_self]

theorem isUnnoticed_dropTag : IsUnnoticed dropTag where
  cls := get?_dropTag (by decide)
  children := dropTag_set (by decide) (by decide)

/-- A tag stands in a node that can tell about one, and the schema takes it. -/
structure IsTagRight (ms : Members) : Prop where
  place : ms.has "tag" → ms.tellsTag
  read : ∀ v, ms.get? "tag" = some v → ∀ place, ∃ info, Schema.tagOfJson place v = .ok info

theorem isTagRight_of_not_mem {ms : Members} (h : "tag" ∉ ms.names) : IsTagRight ms := by
  have hnone : ms.get? "tag" = none := Members.get?_eq_none_iff.mpr h
  constructor
  · simp [Members.has, hnone]
  · simp [hnone]

theorem IsTagRight.congr {ms ms' : Members} (right : IsTagRight ms)
    (hclass : ms'.get? classKey = ms.get? classKey) (htag : ms'.get? "tag" = ms.get? "tag") :
    IsTagRight ms' where
  place := by
    rw [Members.has, htag, Members.tellsTag, hclass]
    exact right.place
  read := by
    rw [htag]
    exact right.read

theorem IsTagRight.set {ms : Members} (right : IsTagRight ms) {n : String} (other : n ≠ classKey)
    (apart : n ≠ "tag") (v : Json) : IsTagRight (ms.set n v) :=
  right.congr (Members.get?_set_ne other.symm ms v) (Members.get?_set_ne apart.symm ms v)

namespace Builder

variable {tag content : String} {ms ms' : Members}

theorem storeText_dropTag (tag : String) (ms : Members) (content : String) :
    storeText tag (dropTag ms) content = (storeText tag ms content).map dropTag := by
  unfold storeText addText
  split
  · rw [get?_dropTag (by decide)]
    cases ms.get? "text" with
    | none => exact congrArg Except.ok (dropTag_set (by decide) (by decide) ms _).symm
    | some v =>
      cases v with
      | str s => exact congrArg Except.ok (dropTag_set (by decide) (by decide) ms _).symm
      | _ => rfl
  · rfl

/-- Only a node that can tell about a tag is looked into. -/
theorem tellsTag_of_fragment? {s : String} (h : fragment? tag ms = some s) :
    ClassTag.tellsTag tag := by
  unfold fragment? at h
  rw [ClassTag.tellsTag, Bool.or_eq_true]
  dsimp only at h
  split_ifs at h with html code
  · exact .inl html
  · exact .inr code

theorem addTag_cases (tag : String) (ms : Members) :
    addTag tag ms = ms ∨ ClassTag.tellsTag tag ∧
      ∃ info, addTag tag ms = ms.set "tag" (Schema.tagToJson info) := by
  unfold addTag
  cases hfragment : fragment? tag ms with
  | none => exact .inl rfl
  | some s =>
    rw [Option.bind_some]
    cases Html.inspect s with
    | none => exact .inl rfl
    | some info => exact .inr ⟨tellsTag_of_fragment? hfragment, info, rfl⟩

theorem dropTag_addTag (hclass : ms.get? classKey = some (.str tag)) :
    dropTag (addTag tag ms) = dropTag ms := by
  obtain heq | ⟨tells, info, heq⟩ := addTag_cases tag ms
  · rw [heq]
  · have htells : ms.tellsTag := by rwa [Members.tellsTag_of_class hclass]
    rw [heq, dropTag, dropTag, Members.tellsTag_set (by decide), if_pos htells, if_pos htells,
      Members.erase_set_self]

theorem isTagRight_addTag (hclass : ms.get? classKey = some (.str tag)) (right : IsTagRight ms) :
    IsTagRight (addTag tag ms) := by
  obtain heq | ⟨tells, info, heq⟩ := addTag_cases tag ms
  · rwa [heq]
  · rw [heq]
    constructor
    · intro _
      rwa [Members.tellsTag_set (by decide), Members.tellsTag_of_class hclass]
    · intro v hv place
      rw [Members.get?_set_self, Option.some.injEq] at hv
      exact ⟨info, hv ▸ Schema.tagOfJson_tagToJson place info⟩

theorem storeText_eq_ok (h : storeText tag ms content = .ok ms') :
    ms' = ms ∨ ∃ s, ms' = ms.set "text" (.str s) := by
  unfold storeText addText at h
  split at h
  · split at h
    · exact .inr ⟨_, (Except.ok.inj h).symm⟩
    · exact .inr ⟨_, (Except.ok.inj h).symm⟩
    · cases h
  · exact .inl (Except.ok.inj h).symm

theorem get?_class_storeText (h : storeText tag ms content = .ok ms') :
    ms'.get? classKey = ms.get? classKey := by
  obtain rfl | ⟨s, rfl⟩ := storeText_eq_ok h
  · rfl
  · exact Members.get?_set_ne (by decide) ms _

/-- Text that is looked into leaves the members as text that is not, but for the tag. -/
theorem takeText_dropTag (hclass : ms.get? classKey = some (.str tag)) (trim : Bool)
    (content : String) :
    takeText ⟨trim, false⟩ tag (dropTag ms) content =
      (takeText ⟨trim, true⟩ tag ms content).map dropTag := by
  unfold takeText
  dsimp only
  generalize (if trim then Text.trimString content else content) = content
  split
  · rfl
  · rw [storeText_dropTag]
    cases hstored : storeText tag ms content with
    | error f => rfl
    | ok stored =>
      -- the class that decides whether the tag is dropped is still the one that it was told by
      have hstoredClass := (get?_class_storeText hstored).trans hclass
      exact congrArg Except.ok (dropTag_addTag hstoredClass).symm

theorem isTagRight_takeText {trim : Bool} (hclass : ms.get? classKey = some (.str tag))
    (right : IsTagRight ms) (h : takeText ⟨trim, true⟩ tag ms content = .ok ms') :
    IsTagRight ms' := by
  unfold takeText at h
  dsimp only at h
  generalize (if trim then Text.trimString content else content) = content at h
  split at h
  · cases h
    exact right
  · obtain ⟨stored, hstored, rfl⟩ := map_eq_ok h
    have hstoredRight : IsTagRight stored := by
      obtain rfl | ⟨s, rfl⟩ := storeText_eq_ok hstored
      · exact right
      · exact right.set (by decide) (by decide) _
    exact isTagRight_addTag ((get?_class_storeText hstored).trans hclass) hstoredRight

/-- A frame whose class is text and whose nodes, closed ones among them, have right tags. -/
structure IsTagged (f : Frame) : Prop where
  bare : f.IsBare
  cls : ∃ tag, f.classValue = .str tag
  own : IsTagRight f.members
  below : ∀ v ∈ f.children.getD [], ∀ ms ∈ nodesOf v, IsTagRight ms

theorem IsTagged.node {f : Frame} (tagged : IsTagged f) : ∀ ms ∈ nodesOf f.node, IsTagRight ms := by
  obtain ⟨own, hnode, hvalues, hget⟩ := tagged.bare.exists_members
  intro ms hms
  rw [hnode, nodesOf_obj, List.mem_cons, hvalues] at hms
  obtain rfl | hms := hms
  · exact tagged.own.congr (hget _ (by decide)) (hget _ (by decide))
  · obtain ⟨v, hv, hms⟩ := List.mem_flatMap.mp hms
    exact tagged.below v hv ms hms

theorem IsTagged.addChild {f head : Frame} (tagged : IsTagged f) (above : IsTagged head) :
    IsTagged (f.addChild head.node) where
  bare := .addChild f _
  cls := tagged.cls
  own := tagged.own
  below := by
    intro v hv
    obtain hv | hv := List.mem_append.mp (show v ∈ f.children.getD [] ++ [head.node] from hv)
    · exact tagged.below v hv
    · rw [List.mem_singleton.mp hv]
      exact above.node

theorem IsTagged.openChildren {f : Frame} (tagged : IsTagged f) : IsTagged f.openChildren := by
  obtain ⟨ms, children⟩ := f
  cases children with
  | none =>
    refine ⟨.openChildren _, ?_, tagged.own.set (by decide) (by decide) _, nofun⟩
    rw [Frame.classValue_openChildren]
    exact tagged.cls
  | some vs => exact tagged

theorem isTagged_opened {name : String} {attributes : Members}
    (spared : ∀ n ∈ [classKey, childrenKey, "tag"], n ∉ attributes.names) :
    IsTagged ⟨openedMembers name attributes, none⟩ where
  bare := isBare_opened name (spared _ (by simp))
  cls := ⟨_, classValue_opened name (spared _ (by simp))⟩
  own := isTagRight_of_not_mem (not_mem_openedMembers (by decide) (spared _ (by simp)))
  below := nofun

theorem IsTagged.takeText {trim : Bool} {f : Frame} (tagged : IsTagged f)
    (hclass : f.classValue = .str tag) (h : takeText ⟨trim, true⟩ tag f.members content = .ok ms) :
    IsTagged { f with members := ms } where
  bare := tagged.bare.retold (retold_of_takeText h)
  cls := ⟨tag, (Frame.classValue_of_retold (retold_of_takeText h)).trans hclass⟩
  own := isTagRight_takeText (Frame.get?_class hclass) tagged.own h
  below := tagged.below

/-- What is kept where tags are looked into: every frame is tagged, and no event brings a class,
children or a tag. -/
def Tags (stack : Stack) (es : List Event) : Prop :=
  (∀ f ∈ stack, IsTagged f) ∧ ∀ e ∈ es, e.Spares [classKey, childrenKey, "tag"]

theorem follows_tags (trim : Bool) : Follows dropTag (some ⟨trim, false⟩)
    (some ⟨trim, true⟩) Tags where
  bare := fun stack es h f hf => (h.1 f hf).bare
  step := by
    intro stack e es ⟨tagged, spared⟩
    cases e with
    | openTag name attributes =>
      have hspared : Event.Spares _ (.openTag name attributes) := spared _ (by simp)
      refine congrArg Except.ok (openTag_revise isUnnoticed_dropTag (dropTag_of_not_mem ?_) stack)
      exact not_mem_openedMembers (by decide) (hspared _ (by simp))
    | text content =>
      refine text_revise isUnnoticed_dropTag fun head hhead => ?_
      obtain ⟨tag, htag⟩ := (tagged head (List.mem_of_mem_head? hhead)).cls
      exact ⟨tag, htag, takeText_dropTag (Frame.get?_class htag) trim content⟩
    | value content => exact value_revise isUnnoticed_dropTag rfl stack content
    | closeTag name =>
      exact closeTag_revise isUnnoticed_dropTag (fun f hf => (tagged f hf).bare) name
    | unknown v => rfl
  next := by
    intro stack e es stack' ⟨tagged, spared⟩ hstep
    refine ⟨?_, fun d hd => spared d (by simp [hd])⟩
    cases e with
    | openTag name attributes =>
      cases hstep
      have hspared : Event.Spares _ (.openTag name attributes) := spared _ (by simp)
      exact forall_openTag tagged (fun f hf => hf.openChildren) (isTagged_opened hspared)
    | text content =>
      cases stack with
      | nil =>
        cases hstep
        exact tagged
      | cons head rest =>
        have htagged := tagged head (by simp)
        obtain ⟨tag, htag⟩ := htagged.cls
        rw [step, text_cons htag] at hstep
        obtain ⟨ms, hms, rfl⟩ := map_eq_ok hstep
        exact List.forall_mem_cons.mpr
          ⟨htagged.takeText htag hms, (List.forall_mem_cons.mp tagged).2⟩
    | value content =>
      rw [step] at hstep
      rw [value_eq_ok hstep]
      exact tagged
    | closeTag name => exact forall_closeTag hstep tagged fun f head hf hhead => hf.addChild hhead
    | unknown v => cases hstep

end Builder

/-- Looking into tags only adds to the tree. It fails where building without it does, with the same
fault; else the tree without it is the one with it less the tags of nodes that can tell about one.
No other node has a tag, and the schema takes every one. -/
theorem buildTree_tagInfo {on off : Option Options} {trim : Bool}
    (hon : textRules on = some ⟨trim, true⟩) (hoff : textRules off = some ⟨trim, false⟩)
    {events : List Event} (spared : ∀ e ∈ events, e.Spares [classKey, childrenKey, "tag"]) :
    buildTree events off = (buildTree events on).map (reviseNodes dropTag) ∧
      ∀ tree, buildTree events on = .ok tree → ∀ ms ∈ Builder.nodesOf tree, IsTagRight ms := by
  have h : Builder.Tags [] events := ⟨nofun, spared⟩
  refine ⟨(Builder.follows_tags trim).buildTree isUnnoticed_dropTag hoff hon h,
    fun tree built => ?_⟩
  obtain ⟨root, rfl, hroot, -⟩ := (Builder.follows_tags trim).exists_root h hon built
  exact (hroot root (by simp)).node

/-- A tag in two chunks, after a text that comes as an attribute, and a block of code with an info
that is a number. -/
def chunkedTag : List Event :=
  [ .openTag "document" [], .openTag "html_inline" [("text", .str "<b ")], .text "id=x",
    .text ">", .closeTag "html_inline", .openTag "code_block" [("info", .int 3)], .text "<i>",
    .closeTag "code_block", .closeTag "document"]

theorem buildTree_chunkedTag :
    (∀ e ∈ chunkedTag, e.Spares [classKey, childrenKey, "tag"]) ∧
      ∃ tree, buildTree chunkedTag (some ⟨.markdownParser, [("tag_info", .bool true)]⟩) = .ok tree ∧
        (∃ ms ∈ Builder.nodesOf tree, ms.has "tag") ∧ (∀ ms ∈ Builder.nodesOf tree, IsTagRight ms) ∧
        buildTree chunkedTag none = .ok (reviseNodes dropTag tree) ∧
        reviseNodes dropTag tree = .obj [
          ("$class", .str "org.accordproject.commonmark.Document"),
          ("nodes", .arr [
            .obj
            [("$class", .str "org.accordproject.commonmark.HtmlInline"), ("text", .str "<b id=x>")],
            .obj [("$class", .str "org.accordproject.commonmark.CodeBlock"), ("info", .int 3),
              ("text", .str "<i>")]])] := by
  have spared : ∀ e ∈ chunkedTag, e.Spares [classKey, childrenKey, "tag"] := by decide
  have hon : textRules (some ⟨.markdownParser, [("tag_info", .bool true)]⟩) = some ⟨false, true⟩ :=
    rfl
  obtain ⟨hoff, hright⟩ :=
    buildTree_tagInfo hon (show textRules none = some ⟨false, false⟩ from rfl) spared
  refine ⟨spared, _, rfl, ⟨_, .tail _ (.head _), rfl⟩, hright _ rfl, hoff, rfl⟩

end Canonmark
