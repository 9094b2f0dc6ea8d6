import Canonmark.Proofs.Builder.Document
import Canonmark.Proofs.Node.Acceptance

/-! Elements that are named after kinds of nodes and whose attributes are properties of the kind.
What the builder makes of these can be read as a tree, however their text is handled. -/
namespace Canonmark

/-- Kinds of nodes that are elements of markup. -/
def Kind.isCommon : Kind → Bool
  | .clause | .templateVariable | .computedVariable => false
  | _ => true

namespace Element

open Schema (classKey spanKey childrenKey)

/-- Attributes that make a node of a kind complete. -/
structure Suits (kind : Kind) (attributes : Members) : Prop
    extends Schema.Texts kind attributes where
  once : attributes.names.Nodup
  free : ∀ n ∈ attributes.names, n ∉ reserved

/-- An element without documents from which a valid node is built. -/
structure Sound (e : Element) : Prop where
  valid : e.Valid
  free : e.DocumentFree
  read : ∀ rules, Schema.Valid (e.node rules)

variable {kind : Kind} {attributes base ms : Members}

theorem ofElement_elementName (common : kind.isCommon) :
    ClassTag.ofElement kind.elementName = kind.classTag := by
  cases kind with
  | clause | templateVariable | computedVariable => cases common
  | _ => rfl

theorem snakeCase_elementName (kind : Kind) : ClassTag.SnakeCase kind.elementName := by
  apply ClassTag.snakeCase_of_splitOn
  cases kind <;> decide

theorem elementName_eq_document (common : kind.isCommon)
    (h : kind.elementName = Builder.documentName) : kind = .document := by
  cases kind with
  | document => rfl
  | _ => exact absurd h (by decide)

theorem text_mem_properties (h : ClassTag.storesText kind.classTag) : "text" ∈ kind.properties := by
  revert h
  cases kind <;> decide

theorem tag_mem_properties (h : kind.hasTag) : "tag" ∈ kind.properties := by
  revert h
  cases kind <;> decide

/-- What text may have done to the members of a node. -/
structure Given (kind : Kind) (base ms : Members) : Prop where
  others : ∀ n, n ≠ "text" → n ≠ "tag" → ms.get? n = base.get? n
  text : ∀ v, ms.get? "text" = some v → (∃ s, v = .str s) ∧ "text" ∈ kind.properties
  tag : ∀ v, ms.get? "tag" = some v → (∃ info, v = Schema.tagToJson info) ∧ kind.hasTag

theorem Given.setText (h : Given kind base ms) (stores : ClassTag.storesText kind.classTag)
    (s : String) : Given kind base (ms.set "text" (.str s)) where
  others := by
    intro n htext htag
    rw [Members.get?_set_ne htext, h.others n htext htag]
  text := by
    intro v hv
    rw [Members.get?_set_self, Option.some.injEq] at hv
    exact ⟨⟨s, hv.symm⟩, text_mem_properties stores⟩
  tag := by
    intro v hv
    rw [Members.get?_set_ne (by decide)] at hv
    exact h.tag v hv

/-- Something is known about a tag only where a node holds HTML or is a block of code. -/
theorem hasTag_of_fragment? {s : String} (h : Builder.fragment? kind.classTag ms = some s) :
    kind.hasTag := by
  cases kind with
  | codeBlock | htmlBlock | htmlInline => rfl
  | _ => cases h

theorem Given.addTag (h : Given kind base ms) :
    Given kind base (Builder.addTag kind.classTag ms) := by
  unfold Builder.addTag
  cases hf : Builder.fragment? kind.classTag ms with
  | none => exact h
  | some s =>
    rw [Option.bind_some]
    cases Html.inspect s with
    | none => exact h
    | some info =>
      constructor
      · intro n htext htag
        rw [Members.get?_set_ne htag, h.others n htext htag]
      · intro v hv
        rw [Members.get?_set_ne (by decide)] at hv
        exact h.text v hv
      · intro v hv
        rw [Members.get?_set_self, Option.some.injEq] at hv
        exact ⟨⟨info, hv.symm⟩, hasTag_of_fragment? hf⟩

theorem Given.giveText (h : Given kind base ms) (rules : TextRules) (content : String) :
    Given kind base (Builder.giveText rules kind.classTag ms content) := by
  unfold Builder.giveText
  generalize (if rules.trim then Text.trimString content else content) = c
  dsimp only
  by_cases stores : ClassTag.storesText kind.classTag
  · rw [if_pos stores]
    split_ifs
    · exact h
    · exact (h.setText stores _).addTag
    · exact h.setText stores _
  · rw [if_neg stores]
    split_ifs
    · exact h
    · exact h.addTag
    · exact h

theorem Given.foldl (h : Given kind base ms) (rules : TextRules) (chunks : List String) :
    Given kind base (chunks.foldl (Builder.giveText rules kind.classTag) ms) := by
  induction chunks generalizing ms with
  | nil => exact h
  | cons c cs ih => exact ih (h.giveText rules c)

theorem given_start (suits : Suits kind attributes) :
    Given kind ((classKey, .str kind.classTag) :: attributes)
      ((classKey, .str kind.classTag) :: attributes) where
  others := fun _ _ _ => rfl
  text := by
    intro v hv
    rw [Members.get?_eq_none_iff.mpr (text_not_mem suits.free _)] at hv
    cases hv
  tag := by
    intro v hv
    have hfree : "tag" ∉ attributes.names := fun h => suits.free _ h (by decide)
    rw [Members.get?_cons_ne (by decide), Members.get?_eq_none_iff.mpr hfree] at hv
    cases hv

theorem not_mem_needed (kind : Kind) : "text" ∉ kind.needed ∧ "tag" ∉ kind.needed := by
  cases kind <;> decide

theorem Given.name_allowed {n : String} (given : Given kind base ms)
    (known : ∀ n ∈ base.names, n ∈ Schema.allowed kind) (hn : n ∈ ms.names) :
    n ∈ Schema.allowed kind := by
  have hproperty : n ∈ kind.properties → n ∈ Schema.allowed kind := by
    intro h
    simp [Schema.allowed, h]
  have hsome := Members.get?_isSome_iff.mpr hn
  obtain ⟨v, hv⟩ := Option.isSome_iff_exists.mp hsome
  by_cases htext : n = "text"
  · subst htext
    exact hproperty (given.text v hv).2
  by_cases htag : n = "tag"
  · subst htag
    exact hproperty (tag_mem_properties (given.tag v hv).2)
  rw [given.others n htext htag] at hsome
  exact known n (Members.get?_isSome_iff.mp hsome)

/-- Members that fit a kind fit it after text. -/
theorem Given.fit (given : Given kind base ms) (fit : Schema.Fit kind base) :
    Schema.Fit kind ms := by
  have hgiven : ∀ n, n ≠ "text" → n ≠ "tag" → ms.given? n = base.given? n :=
    fun n htext htag => Members.given?_congr (given.others n htext htag)
  obtain ⟨htext, htag⟩ := not_mem_needed kind
  constructor
  · rw [given.others _ (by decide) (by decide), fit.cls]
  · exact fun n hn => given.name_allowed fit.names hn
  · intro n hn
    rw [given.others n (fun h => htext (h ▸ hn)) (fun h => htag (h ▸ hn))]
    exact fit.needed n hn
  · intro n hn htag v hv
    by_cases htext : n = "text"
    · exact (given.text v (htext ▸ Members.get?_of_given? hv)).1
    · rw [hgiven n htext htag] at hv
      exact fit.texts n hn htag v hv
  · rw [given.others _ (by decide) (by decide)]
    exact fit.level
  · intro _ v hv place
    obtain ⟨⟨info, rfl⟩, _⟩ := given.tag v (Members.get?_of_given? hv)
    exact ⟨info, Schema.tagOfJson_tagToJson place info⟩
  · rw [hgiven _ (by decide) (by decide)]
    exact fit.span
  · rw [given.others _ (by decide) (by decide)]
    exact fit.listed

theorem childValues_childless (childless : childrenKey ∉ ms.names) :
    Schema.childValues ms = [] := by
  rw [Schema.childValues, Json.itemsAt, Members.get?_eq_none_iff.mpr childless]

variable {chunks : List String} {children : List Element}

/-- The node of an element of a common kind fits the kind. -/
theorem fit_node (rules : TextRules) (common : kind.isCommon) (suits : Suits kind attributes)
    (room : children = [] ∨ kind.hasChildren) :
    ∃ ms, node rules (mk kind.elementName attributes chunks children) = .obj ms ∧
      Schema.Fit kind ms ∧ Schema.childValues ms = nodes rules children := by
  have takes := takesText suits.free kind.classTag
  have childless := (takes.foldl rules chunks).childless
  have fit := ((given_start suits).foldl rules chunks).fit (Schema.fit_of_texts suits.toTexts)
  rw [node, ofElement_elementName common]
  refine ⟨_, rfl, ?_⟩
  cases children with
  | nil =>
    rw [nodes, Schema.childrenMember, List.append_nil]
    exact ⟨fit, childValues_childless childless⟩
  | cons e es =>
    have hroom : kind.hasChildren := room.resolve_left (List.cons_ne_nil e es)
    rw [nodes, Schema.childrenMember]
    exact ⟨fit.withChildren hroom childless _, Schema.childValues_withChildren childless _⟩

theorem mem_nodes {rules : TextRules} {es : List Element} {v : Json} (h : v ∈ nodes rules es) :
    ∃ e ∈ es, v = node rules e := by
  induction es with
  | nil => cases h
  | cons e es ih =>
    rw [nodes, List.mem_cons] at h
    cases h with
    | inl h => exact ⟨e, by simp, h⟩
    | inr h =>
      obtain ⟨d, hd, hv⟩ := ih h
      exact ⟨d, by simp [hd], hv⟩

/-- An element of a common kind around sound elements is sound. -/
theorem sound_mk (common : kind.isCommon) (other : kind ≠ .document) (suits : Suits kind attributes)
    (room : children = [] ∨ kind.hasChildren) (below : ∀ e ∈ children, Sound e) :
    Sound (mk kind.elementName attributes chunks children) where
  valid := .mk chunks (snakeCase_elementName kind) suits.once suits.free
    fun e he => (below e he).valid
  free := .mk (fun h => other (elementName_eq_document common h)) fun e he => (below e he).free
  read := by
    intro rules
    obtain ⟨ms, hnode, fit, hchildren⟩ := fit_node rules common suits room
    rw [hnode]
    refine .node fit fun v hv => ?_
    rw [hchildren] at hv
    obtain ⟨e, he, rfl⟩ := mem_nodes hv
    exact (below e he).read rules

/-- A document around sound elements is built, and its tree is read as a document. -/
theorem build_document (rules : TextRules) (suits : Suits .document attributes)
    (below : ∀ e ∈ children, Sound e) :
    ∃ root, Builder.feed (some rules) [] (mk Builder.documentName attributes [] children).events =
        ([root], none) ∧
      root.node = node rules (mk Builder.documentName attributes [] children) ∧
      ∃ n, documentOfJson root.node = .ok n := by
  have valid : (mk Builder.documentName attributes [] children).Valid :=
    .mk [] snakeCase_documentName suits.once suits.free
      fun e he => (below e he).valid
  obtain ⟨root, hfeed, hroot⟩ :=
    feed_document rules valid ⟨rfl, fun e he => (below e he).free⟩
  refine ⟨root, hfeed, hroot, ?_⟩
  have hfit : ∃ ms, node rules (mk Kind.document.elementName attributes [] children) = .obj ms ∧
      Schema.Fit .document ms ∧ Schema.childValues ms = nodes rules children :=
    fit_node rules rfl suits (.inr rfl)
  have hname : Kind.document.elementName = Builder.documentName := rfl
  obtain ⟨ms, hnode, fit, hchildren⟩ := hfit
  rw [hroot, ← hname, hnode]
  refine Schema.documentOfJson_of_valid fit fun v hv => ?_
  rw [hchildren] at hv
  obtain ⟨e, he, rfl⟩ := mem_nodes hv
  exact (below e he).read rules

end Element
end Canonmark
