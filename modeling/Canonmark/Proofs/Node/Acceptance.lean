import Canonmark.Convert
import Canonmark.Proofs.Json.Fold

/-! Values that are read as trees. What such a value is like is said of its members alone, and
reading refuses none. -/
namespace Canonmark

/-- Properties that a node must have. -/
def Kind.needed : Kind → List String
  | .heading => ["level"]
  | .list => ["type"]
  | .link | .image => ["destination", "title"]
  | .clause => ["clauseid", "src"]
  | .templateVariable => ["id", "value"]
  | .computedVariable => ["value"]
  | _ => []

/-- Kinds of nodes about whose tag something may be known. -/
def Kind.hasTag : Kind → Bool
  | .codeBlock | .htmlBlock | .htmlInline => true
  | _ => false

namespace Schema

/-- The values of the children among some members. -/
def childValues (ms : Members) : List Json := Json.itemsAt childrenKey ms

/-- What a node of a kind needs of its members, besides that its children are nodes. -/
structure Fit (kind : Kind) (ms : Members) : Prop where
  cls : ms.get? classKey = some (.str kind.classTag)
  names : ∀ n ∈ ms.names, n ∈ allowed kind
  needed : ∀ n ∈ kind.needed, ∃ s, ms.get? n = some (.str s)
  texts : ∀ n ∈ kind.properties, n ≠ "tag" → ∀ v, ms.given? n = some v → ∃ s, v = .str s
  level : kind = .heading → ∃ l : Level, ms.get? "level" = some (.str l.text)
  tag : kind.hasTag → ∀ v, ms.given? "tag" = some v → ∀ place, ∃ t, tagOfJson place v = .ok t
  span : ∀ v, ms.given? spanKey = some v → ∃ s span, v = .str s ∧ Span.ofText s = .ok span
  listed : ∀ v, ms.get? childrenKey = some v → ∃ vs, v = .arr vs

/-- Properties of a kind that are all texts, and all that the kind needs. -/
structure Texts (kind : Kind) (properties : Members) : Prop where
  known : ∀ n ∈ properties.names, n ∈ kind.properties ∧ n ≠ "tag"
  texts : ∀ n v, properties.get? n = some v → ∃ s, v = .str s
  needed : ∀ n ∈ kind.needed, n ∈ properties.names
  level : kind = .heading → ∃ l : Level, properties.get? "level" = some (.str l.text)

/-- A value that is a node with nodes below it. -/
inductive Valid : Json → Prop
  | node {kind : Kind} {ms : Members} (fit : Fit kind ms)
      (below : ∀ v ∈ childValues ms, Valid v) : Valid (.obj ms)

theorem not_mem_properties (kind : Kind) :
    classKey ∉ kind.properties ∧ spanKey ∉ kind.properties ∧ childrenKey ∉ kind.properties := by
  cases kind <;> decide

/-- Members that are texts with names of properties. -/
def AllTexts (kind : Kind) (ms : Members) : Prop :=
  ∀ n v, (n, v) ∈ ms → (∃ s, v = .str s) ∧ n ∈ kind.properties ∧ n ≠ "tag"

@[simp] theorem allTexts_nil (kind : Kind) : AllTexts kind [] := nofun

@[simp] theorem allTexts_cons {kind : Kind} {name s : String} {ms : Members} :
    AllTexts kind ((name, .str s) :: ms) ↔
      (name ∈ kind.properties ∧ name ≠ "tag") ∧ AllTexts kind ms := by
  constructor
  · intro h
    exact ⟨(h name (.str s) (by simp)).2, fun n v hv => h n v (by simp [hv])⟩
  · rintro ⟨hname, hms⟩ n v hv
    cases List.mem_cons.mp hv with
    | inl hv =>
      cases hv
      exact ⟨⟨s, rfl⟩, hname⟩
    | inr hv => exact hms n v hv

@[simp] theorem allTexts_append {kind : Kind} {ms others : Members} :
    AllTexts kind (ms ++ others) ↔ AllTexts kind ms ∧ AllTexts kind others := by
  constructor
  · intro h
    exact ⟨fun n v hv => h n v (by simp [hv]), fun n v hv => h n v (by simp [hv])⟩
  · rintro ⟨hms, hothers⟩ n v hv
    cases List.mem_append.mp hv with
    | inl hv => exact hms n v hv
    | inr hv => exact hothers n v hv

theorem texts_of_members {kind : Kind} {properties : Members} (known : AllTexts kind properties)
    (needed : ∀ n ∈ kind.needed, n ∈ properties.names)
    (level : kind = .heading → ∃ l : Level, properties.get? "level" = some (.str l.text)) :
    Texts kind properties where
  known := by
    intro n hn
    obtain ⟨⟨_, v⟩, hp, rfl⟩ := List.mem_map.mp hn
    exact (known _ v hp).2
  texts := fun n v hv => (known n v (Members.mem_of_get? hv)).1
  needed := needed
  level := level

theorem texts_nil {kind : Kind} (needed : kind.needed = []) (other : kind ≠ .heading) :
    Texts kind [] :=
  texts_of_members (by simp) (by simp [needed]) fun h => absurd h other

theorem texts_heading (l : Level) : Texts .heading [("level", .str l.text)] :=
  texts_of_members (by simp [Kind.properties]) (by simp [Kind.needed])
    fun _ => ⟨l, Members.get?_cons_self ..⟩

/-- A class and texts are enough for a node. -/
theorem fit_of_texts {kind : Kind} {properties : Members} (h : Texts kind properties) :
    Fit kind ((classKey, .str kind.classTag) :: properties) := by
  obtain ⟨hclass, hspan, hchildren⟩ := not_mem_properties kind
  have hget : ∀ n, n ≠ classKey →
      Members.get? ((classKey, .str kind.classTag) :: properties) n = properties.get? n :=
    fun n hn => Members.get?_cons_ne hn _ _
  have hnone : ∀ n, n ∉ kind.properties → properties.get? n = none :=
    fun n hn => Members.get?_eq_none_iff.mpr fun hmem => hn (h.known n hmem).1
  constructor
  · rw [Members.get?_cons_self]
  · intro n hn
    rw [Members.names_cons, List.mem_cons] at hn
    cases hn with
    | inl hn => simp [allowed, hn]
    | inr hn => simp [allowed, (h.known n hn).1]
  · intro n hn
    have hmem := h.needed n hn
    obtain ⟨v, hv⟩ := Option.isSome_iff_exists.mp (Members.get?_isSome_iff.mpr hmem)
    obtain ⟨s, rfl⟩ := h.texts n v hv
    exact ⟨s, by rw [hget n (fun heq => hclass (heq ▸ (h.known n hmem).1)), hv]⟩
  · intro n hn _ v hv
    have hvn := Members.get?_of_given? hv
    rw [hget n (fun heq => hclass (heq ▸ hn))] at hvn
    exact h.texts n v hvn
  · intro hk
    obtain ⟨l, hl⟩ := h.level hk
    exact ⟨l, by rw [hget _ (by decide), hl]⟩
  · intro _ v hv _
    have hvn := Members.get?_of_given? hv
    rw [hget _ (by decide)] at hvn
    have hmem := Members.get?_isSome_iff.mp (Option.isSome_iff_exists.mpr ⟨v, hvn⟩)
    exact absurd rfl (h.known _ hmem).2
  · intro v hv
    have hvn := Members.get?_of_given? hv
    rw [hget _ (by decide), hnone _ hspan] at hvn
    cases hvn
  · intro v hv
    rw [hget _ (by decide), hnone _ hchildren] at hv
    cases hv

/-- A list of children fits a kind that can have some. -/
theorem Fit.withChildren {kind : Kind} {ms : Members} (fit : Fit kind ms) (room : kind.hasChildren)
    (childless : childrenKey ∉ ms.names) (vs : List Json) :
    Fit kind (ms ++ [(childrenKey, .arr vs)]) := by
  obtain ⟨hclass, hspan, hchildren⟩ := not_mem_properties kind
  have hget : ∀ n, n ≠ childrenKey → Members.get? (ms ++ [(childrenKey, .arr vs)]) n =
      ms.get? n := by
    intro n hn
    rw [Members.get?_append, Members.get?_cons_ne hn, Members.get?_nil, Option.or_none]
  have hgiven : ∀ n, n ≠ childrenKey →
      Members.given? (ms ++ [(childrenKey, .arr vs)]) n = ms.given? n :=
    fun n hn => Members.given?_congr (hget n hn)
  have hproperty : ∀ n ∈ kind.properties, n ≠ childrenKey := fun n hn heq => hchildren (heq ▸ hn)
  constructor
  · rw [hget _ (by decide), fit.cls]
  · intro n hn
    rw [Members.names_append, List.mem_append] at hn
    cases hn with
    | inl hn => exact fit.names n hn
    | inr hn =>
      rw [Members.names_cons, Members.names_nil, List.mem_singleton] at hn
      simp [allowed, room, hn]
  · intro n hn
    obtain ⟨s, hs⟩ := fit.needed n hn
    refine ⟨s, ?_⟩
    rw [hget n (fun heq => childless ?_), hs]
    exact heq ▸ Members.get?_isSome_iff.mp (Option.isSome_iff_exists.mpr ⟨_, hs⟩)
  · intro n hn htag v hv
    rw [hgiven n (hproperty n hn)] at hv
    exact fit.texts n hn htag v hv
  · intro hk
    obtain ⟨l, hl⟩ := fit.level hk
    exact ⟨l, by rw [hget _ (by decide), hl]⟩
  · intro hk v hv
    rw [hgiven _ (by decide)] at hv
    exact fit.tag hk v hv
  · intro v hv
    rw [hgiven _ (by decide)] at hv
    exact fit.span v hv
  · intro v hv
    rw [Members.get?_append, Members.get?_eq_none_iff.mpr childless, Option.none_or,
      Members.get?_cons_self, Option.some.injEq] at hv
    exact ⟨vs, hv.symm⟩

theorem childValues_withChildren {ms : Members} (childless : childrenKey ∉ ms.names)
    (vs : List Json) : childValues (ms ++ [(childrenKey, .arr vs)]) = vs := by
  rw [childValues, Json.itemsAt, Members.get?_append, Members.get?_eq_none_iff.mpr childless,
    Option.none_or, Members.get?_cons_self]

variable {place : Place} {kind : Kind} {ms : Members} {n : String}

theorem required_of_get? {s : String} (h : ms.get? n = some (.str s)) :
    required place kind ms n = .ok s := by
  simp [required, Members.given?, h, requireText]

theorem optional_of_texts (h : ∀ v, ms.given? n = some v → ∃ s, v = .str s) :
    ∃ o, optional place ms n = .ok o := by
  unfold optional
  cases hg : ms.given? n with
  | none => exact ⟨none, rfl⟩
  | some v =>
    obtain ⟨s, rfl⟩ := h v hg
    exact ⟨some s, rfl⟩

theorem withDefault_of_texts (h : ∀ v, ms.given? n = some v → ∃ s, v = .str s) (default : String) :
    ∃ s, withDefault place ms n default = .ok s := by
  obtain ⟨o, ho⟩ := optional_of_texts h
  exact ⟨o.getD default, by rw [withDefault, ho]; rfl⟩

theorem optionalTag_of_readable
    (h : ∀ v, ms.given? "tag" = some v → ∀ place, ∃ t, tagOfJson place v = .ok t) :
    ∃ o, optionalTag place ms = .ok o := by
  unfold optionalTag
  cases hg : ms.given? "tag" with
  | none => exact ⟨none, rfl⟩
  | some v =>
    obtain ⟨t, ht⟩ := h v hg place
    exact ⟨some t, by simp only [ht]; rfl⟩

@[simp] theorem Level.ofText?_text (l : Level) : Level.ofText? l.text = some l := by
  cases l <;> decide

/-- A draft that becomes a node of a kind, whatever its children are. -/
def Draft.Makes (place : Place) (kind : Kind) (d : Draft) : Prop :=
  ∀ span children, ∃ node, d.complete place span children = .ok node ∧ node.kind? = some kind

theorem makes_leaf (l : Leaf) : Draft.Makes place l.kind (.leaf l) :=
  fun span _ => ⟨.leaf l span, rfl, rfl⟩

theorem makes_container (c : Container) : Draft.Makes place c.kind (.container c) :=
  fun span children => ⟨.branch c span children, rfl, rfl⟩

theorem makes_heading (l : Level) : Draft.Makes place .heading (.heading l.text) :=
  fun span children => ⟨.branch (.heading l) span children, by simp [Draft.complete], rfl⟩

/-- The properties of a node are read, kind by kind. -/
theorem draftOf_of_fit (h : Fit kind ms) (place : Place) :
    ∃ d, draftOf place kind ms = .ok d ∧ d.Makes place kind := by
  have texts : ∀ n ∈ kind.properties, n ≠ "tag" → ∃ o, optional place ms n = .ok o :=
    fun n hn htag => optional_of_texts (h.texts n hn htag)
  have defaults : ∀ n ∈ kind.properties, n ≠ "tag" → ∀ default, ∃ s,
      withDefault place ms n default = .ok s :=
    fun n hn htag default => withDefault_of_texts (h.texts n hn htag) default
  have needed : ∀ n ∈ kind.needed, ∃ s, required place kind ms n = .ok s := by
    intro n hn
    obtain ⟨s, hs⟩ := h.needed n hn
    exact ⟨s, required_of_get? hs⟩
  have tag : kind.hasTag → ∃ o, optionalTag place ms = .ok o :=
    fun hk => optionalTag_of_readable (h.tag hk)
  cases kind with
  | document =>
    obtain ⟨xmlns, hx⟩ := defaults "xmlns" (by decide) (by decide) defaultNamespace
    exact ⟨.container (.document xmlns), by simp only [draftOf, hx]; rfl, makes_container _⟩
  | paragraph =>
    exact ⟨.container .paragraph, rfl, makes_container _⟩
  | heading =>
    obtain ⟨l, hl⟩ := h.level rfl
    exact ⟨.heading l.text, by simp only [draftOf, required_of_get? hl]; rfl, makes_heading l⟩
  | blockQuote =>
    exact ⟨.container .blockQuote, rfl, makes_container _⟩
  | list =>
    obtain ⟨listType, ht⟩ := needed "type" (by decide)
    obtain ⟨start, hs⟩ := texts "start" (by decide) (by decide)
    obtain ⟨tight, hi⟩ := texts "tight" (by decide) (by decide)
    obtain ⟨delimiter, hd⟩ := texts "delimiter" (by decide) (by decide)
    exact ⟨.container (.list ⟨listType, start, tight, delimiter⟩),
      by simp only [draftOf, ht, hs, hi, hd]; rfl, makes_container _⟩
  | item =>
    exact ⟨.container .item, rfl, makes_container _⟩
  | codeBlock =>
    obtain ⟨text, ht⟩ := defaults "text" (by decide) (by decide) ""
    obtain ⟨info, hi⟩ := texts "info" (by decide) (by decide)
    obtain ⟨tag, hg⟩ := tag rfl
    exact ⟨.leaf (.codeBlock text info tag), by simp only [draftOf, ht, hi, hg]; rfl, makes_leaf _⟩
  | htmlBlock =>
    obtain ⟨text, ht⟩ := defaults "text" (by decide) (by decide) ""
    obtain ⟨tag, hg⟩ := tag rfl
    exact ⟨.leaf (.htmlBlock text tag), by simp only [draftOf, ht, hg]; rfl, makes_leaf _⟩
  | thematicBreak =>
    exact ⟨.leaf .thematicBreak, rfl, makes_leaf _⟩
  | text =>
    obtain ⟨text, ht⟩ := defaults "text" (by decide) (by decide) ""
    exact ⟨.leaf (.text text), by simp only [draftOf, ht]; rfl, makes_leaf _⟩
  | emph =>
    exact ⟨.container .emph, rfl, makes_container _⟩
  | strong =>
    exact ⟨.container .strong, rfl, makes_container _⟩
  | code =>
    obtain ⟨text, ht⟩ := defaults "text" (by decide) (by decide) ""
    exact ⟨.leaf (.code text), by simp only [draftOf, ht]; rfl, makes_leaf _⟩
  | link =>
    obtain ⟨destination, hd⟩ := needed "destination" (by decide)
    obtain ⟨title, ht⟩ := needed "title" (by decide)
    exact ⟨.container (.link destination title), by simp only [draftOf, hd, ht]; rfl,
      makes_container _⟩
  | image =>
    obtain ⟨destination, hd⟩ := needed "destination" (by decide)
    obtain ⟨title, ht⟩ := needed "title" (by decide)
    exact ⟨.container (.image destination title), by simp only [draftOf, hd, ht]; rfl,
      makes_container _⟩
  | htmlInline =>
    obtain ⟨text, ht⟩ := defaults "text" (by decide) (by decide) ""
    obtain ⟨tag, hg⟩ := tag rfl
    exact ⟨.leaf (.htmlInline text tag), by simp only [draftOf, ht, hg]; rfl, makes_leaf _⟩
  | softbreak =>
    exact ⟨.leaf .softbreak, rfl, makes_leaf _⟩
  | linebreak =>
    exact ⟨.leaf .linebreak, rfl, makes_leaf _⟩
  | clause =>
    obtain ⟨clauseid, hc⟩ := needed "clauseid" (by decide)
    obtain ⟨src, hs⟩ := needed "src" (by decide)
    obtain ⟨clauseText, ht⟩ := texts "clauseText" (by decide) (by decide)
    exact ⟨.container (.clause clauseid src clauseText), by simp only [draftOf, hc, hs, ht]; rfl,
      makes_container _⟩
  | templateVariable =>
    obtain ⟨id, hi⟩ := needed "id" (by decide)
    obtain ⟨value, hv⟩ := needed "value" (by decide)
    exact ⟨.container (.templateVariable id value), by simp only [draftOf, hi, hv]; rfl,
      makes_container _⟩
  | computedVariable =>
    obtain ⟨value, hv⟩ := needed "value" (by decide)
    exact ⟨.container (.computedVariable value), by simp only [draftOf, hv]; rfl, makes_container _⟩

theorem attributeOfJson_attributeToJson (place : Place) (a : Attribute) :
    attributeOfJson place (attributeToJson a) = .ok a := by
  have hname : Members.get? [(classKey, .str ClassTag.htmlAttribute), ("name", .str a.name),
      ("value", .str a.value)] "name" = some (.str a.name) := by
    rw [Members.get?_cons_ne (by decide), Members.get?_cons_self]
  have hvalue : Members.get? [(classKey, .str ClassTag.htmlAttribute), ("name", .str a.name),
      ("value", .str a.value)] "value" = some (.str a.value) := by
    rw [Members.get?_cons_ne (by decide), Members.get?_cons_ne (by decide), Members.get?_cons_self]
  simp only [attributeToJson, attributeOfJson, hname, hvalue]
  rfl

theorem attributesOfJson_map (place : Place) (i : Nat) (as : List Attribute) :
    attributesOfJson place i (as.map attributeToJson) = .ok as := by
  induction as generalizing i with
  | nil => rfl
  | cons a as ih =>
    rw [List.map_cons, attributesOfJson, attributeOfJson_attributeToJson, ih]
    rfl

/-- What is written about a tag is read back. -/
theorem tagOfJson_tagToJson (place : Place) (t : TagInfo) :
    tagOfJson place (tagToJson t) = .ok t := by
  obtain ⟨tagName, attributeString, attributes, content, closed⟩ := t
  have hattributes : tagAttributes { place with part := .tag }
      [(classKey, .str ClassTag.tagInfo), ("tagName", .str tagName),
        ("attributeString", .str attributeString),
        ("attributes", .arr (attributes.map attributeToJson)), ("content", .str content),
        ("closed", .bool closed)] = .ok attributes :=
    attributesOfJson_map _ 0 attributes
  simp only [tagToJson, tagOfJson, hattributes]
  rfl

@[simp] theorem Kind.ofClassTag?_classTag (k : Kind) : Kind.ofClassTag? k.classTag = some k := by
  cases k <;> rfl

theorem kindOf_of_fit (h : Fit kind ms) (place : Place) : kindOf place ms = .ok kind := by
  simp [kindOf, Members.given?, h.cls]

theorem checkNames_of_fit (h : Fit kind ms) (place : Place) :
    checkNames place kind ms = .ok () := by
  have hnil : ms.names.filter (fun n => !(allowed kind).contains n) = [] := by
    simpa [List.filter_eq_nil_iff] using h.names
  rw [checkNames, hnil]

theorem spanOf_of_fit (h : Fit kind ms) (place : Place) :
    ∃ span, spanOf place kind ms = .ok span := by
  unfold spanOf
  cases hg : ms.given? spanKey with
  | none => exact ⟨none, rfl⟩
  | some v =>
    obtain ⟨s, span, rfl, hs⟩ := h.span v hg
    exact ⟨some span, by simp only [requireText]; simp [bind, Except.bind, hs]⟩

/-- The children are those of the first member of their name. -/
theorem childrenOf_eq (place : Place) (ms : Members) :
    childrenOf place ms =
      match ms.get? childrenKey with
      | none => .ok []
      | some v => childList place v := by
  induction ms with
  | nil => rfl
  | cons p ms ih =>
    obtain ⟨n, v⟩ := p
    rw [childrenOf, Members.get?_cons]
    by_cases hn : n = childrenKey
    · simp [hn]
    · simp [hn, Ne.symm hn, ih]

theorem nodesOfJson_of_forall {vs : List Json}
    (h : ∀ v ∈ vs, ∀ place, ∃ n, nodeOfJson place v = .ok n) (place : Place) (i : Nat) :
    ∃ ns, nodesOfJson place i vs = .ok ns := by
  induction vs generalizing i with
  | nil => exact ⟨[], rfl⟩
  | cons v vs ih =>
    obtain ⟨n, hn⟩ := h v (by simp) (place.child i)
    obtain ⟨ns, hns⟩ := ih (fun u hu => h u (by simp [hu])) (i + 1)
    exact ⟨n :: ns, by rw [nodesOfJson, hn]; simp only [bind, Except.bind, hns]⟩

theorem childrenOf_of_fit (fit : Fit kind ms)
    (below : ∀ v ∈ childValues ms, ∀ place, ∃ n, nodeOfJson place v = .ok n) (place : Place) :
    ∃ ns, childrenOf place ms = .ok ns := by
  rw [childrenOf_eq]
  cases hg : ms.get? childrenKey with
  | none => exact ⟨[], rfl⟩
  | some v =>
    obtain ⟨vs, rfl⟩ := fit.listed v hg
    rw [childValues, Json.itemsAt, hg] at below
    exact nodesOfJson_of_forall below place 0

/-- Reading takes a node whose children it takes. -/
theorem nodeOfJson_of_fit (fit : Fit kind ms)
    (below : ∀ v ∈ childValues ms, ∀ place, ∃ n, nodeOfJson place v = .ok n) (place : Place) :
    ∃ n, nodeOfJson place (.obj ms) = .ok n ∧ n.kind? = some kind := by
  obtain ⟨d, hd, makes⟩ := draftOf_of_fit fit place
  obtain ⟨span, hspan⟩ := spanOf_of_fit fit place
  obtain ⟨ns, hns⟩ := childrenOf_of_fit fit below place
  obtain ⟨n, hn, hkind⟩ := makes span (if kind.hasChildren then ns else [])
  refine ⟨n, ?_, hkind⟩
  rw [nodeOfJson, kindOf_of_fit fit]
  simp only [bind, Except.bind, checkNames_of_fit fit, hd, hspan, hns]
  by_cases hk : kind.hasChildren
  · rw [if_pos hk] at hn ⊢
    exact hn
  · rw [if_neg hk] at hn ⊢
    exact hn

theorem nodeOfJson_of_valid {v : Json} (h : Valid v) :
    ∀ place, ∃ n, nodeOfJson place v = .ok n := by
  induction h with
  | node fit _ ih =>
    intro place
    obtain ⟨n, hn, _⟩ := nodeOfJson_of_fit fit ih place
    exact ⟨n, hn⟩

theorem eq_document_of_kind? {n : Node} (h : n.kind? = some .document) :
    ∃ xmlns span children, n = .branch (.document xmlns) span children := by
  cases n with
  | leaf l span => cases l <;> cases h
  | branch c span children =>
    cases c with
    | document xmlns => exact ⟨xmlns, span, children, rfl⟩
    | _ => cases h
  | foreign v => cases h

/-- A valid document is read as a document. -/
theorem documentOfJson_of_valid (fit : Fit .document ms)
    (below : ∀ v ∈ childValues ms, Valid v) : ∃ n, documentOfJson (.obj ms) = .ok n := by
  obtain ⟨n, hn, hkind⟩ :=
    nodeOfJson_of_fit fit (fun v hv => nodeOfJson_of_valid (below v hv)) .root
  obtain ⟨xmlns, span, children, rfl⟩ := eq_document_of_kind? hkind
  refine ⟨.branch (.document xmlns) span children, ?_⟩
  rw [documentOfJson, treeOfJson, ofJson, hn]
  rfl

end Schema
end Canonmark
