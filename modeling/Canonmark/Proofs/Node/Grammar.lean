import Canonmark.Proofs.Json.Fold
import Canonmark.Proofs.Node.RoundTrip
import Canonmark.Proofs.Text.Lines

/-! The grammar of the values that are read as trees, and their canonical forms: what is read from
the members of such a value, and how it is written again. -/
namespace Canonmark

namespace Schema

/-- An attribute has a name and a value. -/
inductive IsAttribute : Json → Prop
  | mk {ms : Members} {name value : String} (hname : ms.get? "name" = some (.str name))
      (hvalue : ms.get? "value" = some (.str value)) : IsAttribute (.obj ms)

/-- A tag has a name. All else may be missing, but is not null where it stands. -/
inductive IsTag : Json → Prop
  | mk {ms : Members} (cls : ∀ v, ms.get? classKey = some v → v = .str ClassTag.tagInfo)
      (name : ∃ s, ms.get? "tagName" = some (.str s))
      (texts : ∀ n ∈ ["attributeString", "content"], ∀ v, ms.get? n = some v → ∃ s, v = .str s)
      (attributes : ∀ v, ms.get? "attributes" = some v →
        ∃ vs, v = .arr vs ∧ ∀ a ∈ vs, IsAttribute a)
      (closed : ∀ v, ms.get? "closed" = some v → ∃ b, v = .bool b) : IsTag (.obj ms)

/-- A property that is neither missing nor null is a text, or a tag where it is called so. -/
def PropertySuits (ms : Members) (name : String) : Prop :=
  ∀ v, ms.given? name = some v → if name = "tag" then IsTag v else ∃ s, v = .str s

/-- Values that are nodes with nodes below them. -/
inductive Conforms : Json → Prop
  | node {kind : Kind} {ms : Members} (cls : ms.get? classKey = some (.str kind.classTag))
      (names : ∀ n ∈ ms.names,
        n = classKey ∨ n = spanKey ∨ n ∈ kind.properties ∨ kind.hasChildren ∧ n = childrenKey)
      (needed : ∀ n ∈ kind.needed, ∃ s, ms.get? n = some (.str s))
      (properties : ∀ n ∈ kind.properties, PropertySuits ms n) (level : kind = .heading →
        ∃ s ∈ ["1", "2", "3", "4", "5", "6"], ms.get? "level" = some (.str s))
      (span : ∀ v, ms.given? spanKey = some v →
        ∃ s span, v = .str s ∧ Span.Denotes (Text.trim s.toList) span)
      (listed : ∀ v, ms.get? childrenKey = some v → ∃ vs, v = .arr vs)
      (below : ∀ v ∈ childValues ms, Conforms v) : Conforms (.obj ms)

/-- Only the name and the value of an attribute are kept. -/
def completedAttribute (v : Json) : Json :=
  .obj [(classKey, .str ClassTag.htmlAttribute), ("name", (v.get? "name").getD .null),
    ("value", (v.get? "value").getD .null)]

/-- A tag with its class and with all that it may say. -/
def tagForm (ms : Members) : Json :=
  .obj [(classKey, .str ClassTag.tagInfo), ("tagName", (ms.get? "tagName").getD .null),
    ("attributeString", (ms.get? "attributeString").getD (.str "")),
    ("attributes", .arr ((Json.itemsAt "attributes" ms).map completedAttribute)), ("content",
    (ms.get? "content").getD (.str "")), ("closed", (ms.get? "closed").getD (.bool false))]

def completedTag : Json → Json
  | .obj ms => tagForm ms
  | v => v

/-- What a property is where it is missing. -/
def defaultOf? (name : String) : Option String :=
  if name = "text" then some "" else if name = "xmlns" then some defaultNamespace else none

def canonicalProperty (ms : Members) (name : String) : Members :=
  match ms.given? name with
  | some v => [(name, if name = "tag" then completedTag v else v)]
  | none => optionalMember name (defaultOf? name)

/-- A number in the digits from 0 to 9, without needless zeros. -/
def plainNumber (s : Chars) : Chars := Text.Numeral.ofNat (Text.Numeral.valueOfText s)

/-- A span with plain numbers and without white space around it. -/
def plainSpan (text : String) : String :=
  match Text.splitWhere (fun c => c == ':' || c == '-') (Text.trim text.toList) with
  | [a, b, c, d] => String.ofList (plainNumber a ++ ':' :: plainNumber b ++
      '-' :: plainNumber c ++ ':' :: plainNumber d)
  | _ => text

def canonicalSpan (ms : Members) : Members :=
  match ms.given? spanKey with
  | some (.str s) => [(spanKey, .str (plainSpan s))]
  | _ => []

/-- The canonical form of a node with the given children. -/
def canonicalNode (ms : Members) (children : List Json) : List Json :=
  match (ms.text? classKey).bind Kind.ofClassTag? with
  | some kind =>
    [.obj ((classKey, .str kind.classTag) :: kind.properties.flatMap (canonicalProperty ms) ++
      canonicalSpan ms ++ (if kind.hasChildren then [(childrenKey, .arr children)] else []))]
  | none => []

/-- The canonical form of a value: null is dropped, and defaults are written down. -/
def canonical (v : Json) : Json := (Json.fold childrenKey canonicalNode v).headD v

variable {place : Place} {kind : Kind} {ms : Members} {n : String}

theorem requireText_eq_ok_iff {v : Json} {s : String} :
    requireText place n v = .ok s ↔ v = .str s := by
  cases v <;> simp [requireText, fail]

theorem attributeOfJson_eq_ok {v : Json} {a : Attribute} (h : attributeOfJson place v = .ok a) :
    IsAttribute v ∧ completedAttribute v = attributeToJson a := by
  cases v with
  | obj ms =>
    obtain ⟨name, hname, h⟩ := bind_eq_ok h
    obtain ⟨value, hvalue, h⟩ := bind_eq_ok h
    cases h
    rw [requireText_eq_ok_iff] at hname hvalue
    have given : ∀ {n s}, (Members.get? ms n).getD .null = .str s →
        Members.get? ms n = some (.str s) := by
      intro n s hn
      cases hget : Members.get? ms n with
      | none => rw [hget] at hn; cases hn
      | some v => rw [hget] at hn; exact congrArg some hn
    refine ⟨.mk (given hname) (given hvalue), ?_⟩
    simp only [completedAttribute, attributeToJson, Json.get?, hname, hvalue]
  | _ => cases h

theorem attributesOfJson_eq_ok {i : Nat} {vs : List Json} {as : List Attribute}
    (h : attributesOfJson place i vs = .ok as) :
    (∀ v ∈ vs, IsAttribute v) ∧ vs.map completedAttribute = as.map attributeToJson := by
  induction vs generalizing i as with
  | nil =>
    cases h
    exact ⟨by simp, rfl⟩
  | cons v vs ih =>
    obtain ⟨a, ha, h⟩ := bind_eq_ok h
    obtain ⟨as, has, h⟩ := bind_eq_ok h
    cases h
    obtain ⟨hv, hcanon⟩ := attributeOfJson_eq_ok ha
    obtain ⟨hvs, hcanons⟩ := ih has
    exact ⟨List.forall_mem_cons.mpr ⟨hv, hvs⟩,
      by rw [List.map_cons, hcanon, hcanons, List.map_cons]⟩

theorem attributesOfJson_of_forall {vs : List Json} (h : ∀ v ∈ vs, IsAttribute v) (place : Place)
    (i : Nat) : ∃ as, attributesOfJson place i vs = .ok as := by
  induction vs generalizing i with
  | nil => exact ⟨[], rfl⟩
  | cons v vs ih =>
    obtain ⟨hv, hvs⟩ := List.forall_mem_cons.mp h
    obtain ⟨as, has⟩ := ih hvs (i + 1)
    cases hv with
    | @mk ms name value hname hvalue =>
      refine ⟨⟨name, value⟩ :: as, ?_⟩
      simp only [attributesOfJson, attributeOfJson, hname, hvalue, has]
      rfl

theorem checkTagClass_eq_ok_iff :
    checkTagClass place ms = .ok () ↔ ∀ v, ms.get? classKey = some v →
      v = .str ClassTag.tagInfo := by
  unfold checkTagClass
  cases ms.get? classKey with
  | none => simp
  | some v => cases v <;> simp [Json.isText, fail]

theorem tagText_eq_ok_iff {s : String} :
    tagText place ms n = .ok s ↔ (ms.get? n).getD (.str "") = .str s :=
  requireText_eq_ok_iff

theorem tagAttributes_eq_ok {as : List Attribute} (h : tagAttributes place ms = .ok as) :
    (∀ v, ms.get? "attributes" = some v → ∃ vs, v = .arr vs ∧ ∀ a ∈ vs, IsAttribute a) ∧
      (Json.itemsAt "attributes" ms).map completedAttribute = as.map attributeToJson := by
  unfold tagAttributes at h
  rw [Json.itemsAt]
  split at h
  · rename_i hnone
    cases h
    rw [hnone]
    exact ⟨by simp, rfl⟩
  · rename_i vs hvs
    obtain ⟨hall, hcanon⟩ := attributesOfJson_eq_ok h
    rw [hvs]
    exact ⟨by rintro _ ⟨⟩; exact ⟨vs, rfl, hall⟩, hcanon⟩
  · cases h

theorem closedOf_eq_ok_iff {b : Bool} :
    closedOf place ms = .ok b ↔ (ms.get? "closed").getD (.bool false) = .bool b := by
  unfold closedOf
  cases ms.get? "closed" with
  | none => simp
  | some v => cases v <;> simp [fail]

/-- Only tags are read as tags, and what is left out of one is read as its default. -/
theorem tagOfJson_eq_ok {v : Json} {t : TagInfo} (h : tagOfJson place v = .ok t) :
    IsTag v ∧ completedTag v = tagToJson t := by
  cases v with
  | obj ms =>
    obtain ⟨_, hcls, h⟩ := bind_eq_ok h
    obtain ⟨v, hv, h⟩ := bind_eq_ok h
    obtain ⟨as, has, h⟩ := bind_eq_ok h
    obtain ⟨closed, hclosed, h⟩ := bind_eq_ok h
    obtain ⟨name, hname, h⟩ := bind_eq_ok h
    obtain ⟨string, hstring, h⟩ := bind_eq_ok h
    obtain ⟨content, hcontent, h⟩ := bind_eq_ok h
    cases h
    rw [requireText_eq_ok_iff] at hname
    rw [tagText_eq_ok_iff] at hstring hcontent
    rw [closedOf_eq_ok_iff] at hclosed
    obtain ⟨hattributes, hcanon⟩ := tagAttributes_eq_ok has
    have htag : Members.get? ms "tagName" = some (.str name) := by
      unfold tagNameOf at hv
      split at hv
      · cases hv
      · rename_i hget
        cases hv
        rw [hget, hname]
    have texts : ∀ {n s}, (Members.get? ms n).getD (.str "") = .str s →
        ∀ v, Members.get? ms n = some v → ∃ s, v = .str s := by
      intro n s hn v hv
      rw [hv] at hn
      exact ⟨s, hn⟩
    refine ⟨.mk (checkTagClass_eq_ok_iff.mp hcls) ⟨name, htag⟩ ?_ hattributes ?_, ?_⟩
    · simpa using ⟨texts hstring, texts hcontent⟩
    · intro v hv
      rw [hv] at hclosed
      exact ⟨closed, hclosed⟩
    · simp only [completedTag, tagForm, tagToJson, htag, hstring, hcontent, hclosed, hcanon,
        Option.getD_some]
  | _ => cases h

theorem tagOfJson_of_isTag {v : Json} (h : IsTag v) (place : Place) :
    ∃ t, tagOfJson place v = .ok t := by
  cases h with
  | @mk ms cls name texts attributes closed =>
    obtain ⟨tagName, hname⟩ := name
    have text : ∀ n ∈ ["attributeString", "content"], ∃ s, ∀ place, tagText place ms n = .ok s := by
      intro n hn
      cases hget : ms.get? n with
      | none => exact ⟨"", fun _ => by rw [tagText_eq_ok_iff, hget]; rfl⟩
      | some v =>
        obtain ⟨s, rfl⟩ := texts n hn v hget
        exact ⟨s, fun _ => by rw [tagText_eq_ok_iff, hget]; rfl⟩
    have hattributes : ∀ place, ∃ as, tagAttributes place ms = .ok as := by
      intro place
      unfold tagAttributes
      cases hget : ms.get? "attributes" with
      | none => exact ⟨[], rfl⟩
      | some v =>
        obtain ⟨vs, rfl, hvs⟩ := attributes v hget
        exact attributesOfJson_of_forall hvs place 0
    have hclosed : ∀ place, ∃ b, closedOf place ms = .ok b := by
      intro place
      unfold closedOf
      cases hget : ms.get? "closed" with
      | none => exact ⟨false, rfl⟩
      | some v =>
        obtain ⟨b, rfl⟩ := closed v hget
        exact ⟨b, rfl⟩
    obtain ⟨string, hstring⟩ := text "attributeString" (by decide)
    obtain ⟨content, hcontent⟩ := text "content" (by decide)
    obtain ⟨as, has⟩ := hattributes { place with part := .tag }
    obtain ⟨b, hb⟩ := hclosed { place with part := .tag }
    refine ⟨⟨tagName, string, as, content, b⟩, ?_⟩
    simp only [tagOfJson, checkTagClass_eq_ok_iff.mpr cls, tagNameOf, hname, has, hb,
      hstring, hcontent]
    rfl

/-- A property that may stand where it does and that is written as `written`. -/
structure PropertyRead (ms : Members) (name : String) (written : Members) : Prop where
  suits : PropertySuits ms name
  canonical : canonicalProperty ms name = written

/-- A draft of a node of a kind, and what is written for its properties. -/
inductive Drafts (kind : Kind) (written : Members) : Draft → Prop
  | leaf {l : Leaf} (hkind : l.kind = kind) (h : written = leafMembers l) :
      Drafts kind written (.leaf l)
  | container {c : Container} (hkind : c.kind = kind) (h : written = containerMembers c) :
      Drafts kind written (.container c)
  | heading {level : String} (hkind : kind = .heading) (h : written = textMember "level" level) :
      Drafts kind written (.heading level)

theorem required_eq_ok {s : String} (other : n ≠ "tag") (h : required place kind ms n = .ok s) :
    ms.get? n = some (.str s) ∧ PropertyRead ms n (textMember n s) := by
  unfold required at h
  split at h
  · cases h
  · rename_i v hv
    rw [requireText_eq_ok_iff.mp h] at hv
    refine ⟨Members.get?_of_given? hv, fun w hw => ?_, ?_⟩
    · rw [hv, Option.some.injEq] at hw
      rw [if_neg other]
      exact ⟨s, hw.symm⟩
    · rw [canonicalProperty, hv]
      simp only [if_neg other, textMember]

theorem suits_of_optional {o : Option String} (other : n ≠ "tag") (h : ms.given? n = o.map .str) :
    PropertySuits ms n := by
  intro v hv
  rw [h, Option.map_eq_some_iff] at hv
  obtain ⟨s, _, rfl⟩ := hv
  rw [if_neg other]
  exact ⟨s, rfl⟩

theorem optional_eq_ok {o : Option String} (other : n ≠ "tag") (free : defaultOf? n = none)
    (h : optional place ms n = .ok o) : PropertyRead ms n (optionalMember n o) := by
  rw [optional_eq_ok_iff] at h
  refine ⟨suits_of_optional other h, ?_⟩
  rw [canonicalProperty, h]
  cases o with
  | none => simp only [Option.map_none, free]
  | some s => simp only [Option.map_some, if_neg other, optionalMember]

theorem withDefault_eq_ok {d s : String} (other : n ≠ "tag") (hd : defaultOf? n = some d)
    (h : withDefault place ms n d = .ok s) : PropertyRead ms n (textMember n s) := by
  obtain ⟨o, ho, rfl⟩ := map_eq_ok h
  rw [optional_eq_ok_iff] at ho
  refine ⟨suits_of_optional other ho, ?_⟩
  rw [canonicalProperty, ho]
  cases o with
  | none => simp only [Option.map_none, hd, optionalMember, textMember, Option.getD_none]
  | some s => simp only [Option.map_some, if_neg other, textMember, Option.getD_some]

theorem optionalTag_eq_ok {o : Option TagInfo} (h : optionalTag place ms = .ok o) :
    PropertyRead ms "tag" (tagMember o) := by
  unfold optionalTag at h
  split at h
  · rename_i hnone
    cases h
    refine ⟨fun v hv => ?_, by rw [canonicalProperty, hnone]; rfl⟩
    rw [hnone] at hv
    cases hv
  · rename_i v hv
    obtain ⟨t, ht, rfl⟩ := map_eq_ok h
    obtain ⟨htag, hcanon⟩ := tagOfJson_eq_ok ht
    refine ⟨fun w hw => ?_, ?_⟩
    · rw [hv, Option.some.injEq] at hw
      rw [if_pos rfl, ← hw]
      exact htag
    · rw [canonicalProperty, hv]
      simp only [if_pos, hcanon, tagMember]

/-- What a draft is read from suits the kind, and the draft is written as its canonical form. -/
theorem draftOf_eq_ok {draft : Draft} (h : draftOf place kind ms = .ok draft) :
    ∃ written, List.Forall₂ (PropertyRead ms) kind.properties written ∧
      (∀ n ∈ kind.needed, ∃ s, ms.get? n = some (.str s)) ∧ Drafts kind written.flatten draft := by
  cases kind with
  | document =>
    obtain ⟨xmlns, hx, h⟩ := bind_eq_ok h
    cases h
    exact ⟨_, .cons (withDefault_eq_ok (by decide) (by decide) hx) .nil, by simp [Kind.needed],
      .container rfl (by simp [containerMembers])⟩
  | heading =>
    obtain ⟨level, hl, h⟩ := bind_eq_ok h
    cases h
    obtain ⟨hlevel, read⟩ := required_eq_ok (by decide) hl
    exact ⟨_, .cons read .nil, by simp [Kind.needed, hlevel], .heading rfl (by simp)⟩
  | list =>
    obtain ⟨listType, ht, h⟩ := bind_eq_ok h
    obtain ⟨start, hs, h⟩ := bind_eq_ok h
    obtain ⟨tight, hi, h⟩ := bind_eq_ok h
    obtain ⟨delimiter, hd, h⟩ := bind_eq_ok h
    cases h
    obtain ⟨htype, read⟩ := required_eq_ok (by decide) ht
    have hstart := optional_eq_ok (by decide) (by decide) hs
    have htight := optional_eq_ok (by decide) (by decide) hi
    have hdelimiter := optional_eq_ok (by decide) (by decide) hd
    exact ⟨_, .cons read (.cons hstart (.cons htight (.cons hdelimiter .nil))),
      by simp [Kind.needed, htype], .container rfl (by simp [containerMembers])⟩
  | codeBlock =>
    obtain ⟨text, ht, h⟩ := bind_eq_ok h
    obtain ⟨info, hi, h⟩ := bind_eq_ok h
    obtain ⟨tag, hg, h⟩ := bind_eq_ok h
    cases h
    have htext := withDefault_eq_ok (by decide) (by decide) ht
    have hinfo := optional_eq_ok (by decide) (by decide) hi
    exact ⟨_, .cons htext (.cons hinfo (.cons (optionalTag_eq_ok hg) .nil)), by simp [Kind.needed],
      .leaf rfl (by simp [leafMembers])⟩
  | htmlBlock | htmlInline =>
    obtain ⟨text, ht, h⟩ := bind_eq_ok h
    obtain ⟨tag, hg, h⟩ := bind_eq_ok h
    cases h
    have htext := withDefault_eq_ok (by decide) (by decide) ht
    exact ⟨_, .cons htext (.cons (optionalTag_eq_ok hg) .nil), by simp [Kind.needed],
      .leaf rfl (by simp [leafMembers])⟩
  | text | code =>
    obtain ⟨text, ht, h⟩ := bind_eq_ok h
    cases h
    exact ⟨_, .cons (withDefault_eq_ok (by decide) (by decide) ht) .nil, by simp [Kind.needed],
      .leaf rfl (by simp [leafMembers])⟩
  | link | image | templateVariable =>
    obtain ⟨first, hf, h⟩ := bind_eq_ok h
    obtain ⟨second, hs, h⟩ := bind_eq_ok h
    cases h
    obtain ⟨hfirst, read⟩ := required_eq_ok (by decide) hf
    obtain ⟨hsecond, read'⟩ := required_eq_ok (by decide) hs
    exact ⟨_, .cons read (.cons read' .nil), by simp [Kind.needed, hfirst, hsecond],
      .container rfl (by simp [containerMembers])⟩
  | clause =>
    obtain ⟨clauseid, hc, h⟩ := bind_eq_ok h
    obtain ⟨src, hs, h⟩ := bind_eq_ok h
    obtain ⟨clauseText, ht, h⟩ := bind_eq_ok h
    cases h
    obtain ⟨hclauseid, read⟩ := required_eq_ok (by decide) hc
    obtain ⟨hsrc, read'⟩ := required_eq_ok (by decide) hs
    have htext := optional_eq_ok (by decide) (by decide) ht
    exact ⟨_, .cons read (.cons read' (.cons htext .nil)), by simp [Kind.needed, hclauseid, hsrc],
      .container rfl (by simp [containerMembers])⟩
  | computedVariable =>
    obtain ⟨value, hv, h⟩ := bind_eq_ok h
    cases h
    obtain ⟨hvalue, read⟩ := required_eq_ok (by decide) hv
    exact ⟨_, .cons read .nil, by simp [Kind.needed, hvalue],
      .container rfl (by simp [containerMembers])⟩
  | paragraph | blockQuote | item | emph | strong =>
    cases h
    exact ⟨[], .nil, by simp [Kind.needed], .container rfl rfl⟩
  | thematicBreak | softbreak | linebreak =>
    cases h
    exact ⟨[], .nil, by simp [Kind.needed], .leaf rfl rfl⟩

theorem flatMap_canonicalProperty {names : List String} {written : List Members}
    (h : List.Forall₂ (PropertyRead ms) names written) :
    names.flatMap (canonicalProperty ms) = written.flatten := by
  induction h with
  | nil => rfl
  | cons read _ ih => rw [List.flatMap_cons, List.flatten_cons, read.canonical, ih]

theorem suits_of_forall₂ {names : List String} {written : List Members}
    (h : List.Forall₂ (PropertyRead ms) names written) : ∀ n ∈ names, PropertySuits ms n := by
  induction h with
  | nil => simp
  | cons read _ ih => exact List.forall_mem_cons.mpr ⟨read.suits, ih⟩

theorem plainSpan_of_denotes {s : String} {span : Span}
    (h : Span.Denotes (Text.trim s.toList) span) : plainSpan s = span.toText := by
  have unsigned : ∀ {t : Chars}, Span.IsNumber t → ∀ c ∈ t, (c == ':' || c == '-') = false := by
    intro t ht c hc
    have hdigit := ht.1.2 c hc
    rw [Bool.or_eq_false_iff, beq_eq_false_iff_ne, beq_eq_false_iff_ne]
    constructor <;> rintro rfl <;> exact absurd hdigit (by decide)
  generalize htext : Text.trim s.toList = text at h
  obtain ⟨ha, hb, hc, hd⟩ := h
  rw [plainSpan, htext, Text.splitWhere_append (unsigned ha) (by decide),
    Text.splitWhere_append (unsigned hb) (by decide),
    Text.splitWhere_append (unsigned hc) (by decide), Text.splitWhere_of_forall (unsigned hd)]
  rfl

theorem spanOf_eq_ok {span : Option Span} (h : spanOf place kind ms = .ok span) :
    (∀ v, ms.given? spanKey = some v →
        ∃ s span, v = .str s ∧ Span.Denotes (Text.trim s.toList) span) ∧
      (∀ s ∈ span, s.IsWritable) ∧ canonicalSpan ms = spanMember span := by
  unfold spanOf at h
  rw [canonicalSpan]
  cases hget : ms.given? spanKey with
  | none =>
    rw [hget] at h
    cases h
    exact ⟨by simp, by simp, rfl⟩
  | some v =>
    rw [hget] at h
    obtain ⟨s, hs, hread⟩ := bind_eq_ok h
    rw [requireText_eq_ok_iff] at hs
    subst hs
    cases htext : Span.ofText s with
    | error refusal =>
      rw [htext] at hread
      cases hread
    | ok span =>
      rw [htext] at hread
      cases hread
      rw [Span.ofText_eq_ok_iff] at htext
      refine ⟨?_, ?_, ?_⟩
      · rintro _ ⟨⟩
        exact ⟨s, span, rfl, htext⟩
      · rintro _ ⟨⟩
        exact Span.isWritable_of_denotes htext
      · rw [spanMember, ← plainSpan_of_denotes htext]

end Schema
end Canonmark
