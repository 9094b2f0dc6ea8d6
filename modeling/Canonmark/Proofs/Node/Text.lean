import Canonmark.Proofs.Json.Text
import Canonmark.Proofs.Node.RoundTrip

/-! The JSON text of a typed tree, in every layout, and the tree that is read from it. -/
namespace Canonmark.Schema

/-- Members without numbers whose names are among the given ones, in their order. -/
structure PlainUnder (names : List String) (ms : Members) : Prop where
  ordered : ms.names.Sublist names
  plain : ∀ m ∈ ms, m.2.IsPlain

namespace PlainUnder

variable {names others : List String} {ms rest : Members}

theorem nil : PlainUnder names [] := ⟨List.nil_sublist names, nofun⟩

theorem member (name : String) {v : Json} (plain : v.IsPlain) : PlainUnder [name] [(name, v)] :=
  ⟨List.Sublist.refl _, fun m hm => by rwa [List.mem_singleton.mp hm]⟩

theorem append (h : PlainUnder names ms) (hrest : PlainUnder others rest) :
    PlainUnder (names ++ others) (ms ++ rest) := by
  constructor
  · rw [Members.names_append]
    exact h.ordered.append hrest.ordered
  · intro m hm
    exact (List.mem_append.mp hm).elim (h.plain m) (hrest.plain m)

theorem isPlain_obj (h : PlainUnder names ms) (once : names.Nodup) : Json.IsPlain (.obj ms) :=
  .obj (once.sublist h.ordered) h.plain

theorem text (name value : String) : PlainUnder [name] (textMember name value) :=
  member name (.str value)

theorem optional (name : String) (value : Option String) :
    PlainUnder [name] (optionalMember name value) := by
  cases value with
  | none => exact nil
  | some value => exact member name (.str value)

theorem isPlain_attributeToJson (a : Attribute) : (attributeToJson a).IsPlain :=
  (((member classKey (.str _)).append (text "name" a.name)).append
    (text "value" a.value)).isPlain_obj (by decide)

theorem isPlain_tagToJson (t : TagInfo) : (tagToJson t).IsPlain := by
  have hattributes : ∀ v ∈ t.attributes.map attributeToJson, v.IsPlain := by
    intro v hv
    obtain ⟨a, -, rfl⟩ := List.mem_map.mp hv
    exact isPlain_attributeToJson a
  have hnames := (((member classKey (.str ClassTag.tagInfo)).append
    (text "tagName" t.tagName)).append (text "attributeString" t.attributeString)).append
      (member "attributes" (.arr hattributes))
  exact ((hnames.append (text "content" t.content)).append
    (member "closed" (.bool t.closed))).isPlain_obj (by decide)

theorem tag (t : Option TagInfo) : PlainUnder ["tag"] (tagMember t) := by
  cases t with
  | none => exact nil
  | some t => exact member "tag" (isPlain_tagToJson t)

theorem span (s : Option Span) : PlainUnder [spanKey] (spanMember s) := by
  cases s with
  | none => exact nil
  | some s => exact member spanKey (.str s.toText)

theorem leaf (l : Leaf) : PlainUnder l.kind.properties (leafMembers l) := by
  cases l with
  | codeBlock t info g => exact ((text "text" t).append (optional "info" info)).append (tag g)
  | htmlBlock t g | htmlInline t g => exact (text "text" t).append (tag g)
  | text t | code t => exact text "text" t
  | thematicBreak | softbreak | linebreak => exact nil

theorem container (c : Container) : PlainUnder c.kind.properties (containerMembers c) := by
  cases c with
  | document xmlns => exact text "xmlns" xmlns
  | heading level => exact text "level" level.text
  | list data =>
    exact (((text "type" data.listType).append (optional "start" data.start)).append
      (optional "tight" data.tight)).append (optional "delimiter" data.delimiter)
  | link destination title | image destination title =>
    exact (text "destination" destination).append (text "title" title)
  | clause clauseid src clauseText =>
    exact ((text "clauseid" clauseid).append (text "src" src)).append
      (optional "clauseText" clauseText)
  | templateVariable id value => exact (text "id" id).append (text "value" value)
  | computedVariable value => exact text "value" value
  | paragraph | blockQuote | item | emph | strong => exact nil

end PlainUnder

theorem nodup_keys (kind : Kind) :
    ([classKey] ++ kind.properties ++ [spanKey] ++ [childrenKey]).Nodup := by
  cases kind <;> decide

theorem isPlain_toJson {n : Node} (typed : n.IsTyped) : (toJson n).IsPlain := by
  induction typed with
  | @leaf l span _ =>
    have hkeys := ((PlainUnder.member classKey (.str l.kind.classTag)).append
      (PlainUnder.leaf l)).append (PlainUnder.span span)
    rw [toJson]
    exact hkeys.isPlain_obj ((nodup_keys l.kind).sublist (List.sublist_append_left _ _))
  | @branch c span children _ _ ih =>
    have hchildren : ∀ v ∈ toJsonList children, v.IsPlain := by
      rw [toJsonList_eq_map]
      intro v hv
      obtain ⟨n, hn, rfl⟩ := List.mem_map.mp hv
      exact ih n hn
    have hkeys := ((PlainUnder.member classKey (.str c.kind.classTag)).append
      (PlainUnder.container c)).append (PlainUnder.span span)
    rw [toJson]
    exact (hkeys.append (PlainUnder.member childrenKey (.arr hchildren))).isPlain_obj
      (nodup_keys c.kind)

end Schema

/-- A typed tree has a JSON text in every layout, the tree is read back from this text as it is, and
what is read back is written as the same text. -/
theorem treeOfText_treeToText {n : Node} (typed : n.IsTyped) (indent : Json.Indent) :
    ∃ text, treeToText n indent = .ok text ∧ treeOfText text = .ok n ∧
      (treeOfText text >>= (treeToText · indent)) = .ok text := by
  obtain ⟨v, hwrite, hread⟩ := treeOfJson_treeToJson typed
  have hplain : v.IsPlain := by
    have hv : Schema.toJson n = v := by
      rw [treeToJson, Schema.foreign?_of_isTyped typed] at hwrite
      exact Except.ok.inj hwrite
    exact hv ▸ Schema.isPlain_toJson typed
  have htext : treeToText n indent = .ok (v.toText indent) := by rw [treeToText, hwrite]; rfl
  have hback : treeOfText (v.toText indent) = .ok n := by
    rw [treeOfText, Json.ofText?_toText hplain indent]
    exact hread
  refine ⟨v.toText indent, htext, hback, ?_⟩
  rw [hback]
  exact htext

theorem treeOfText_of_taggedItem :
    taggedItem.IsTyped ∧ ∃ text, treeToText taggedItem (some 2) = .ok text ∧
      treeOfText text = .ok taggedItem ∧
        (treeOfText text >>= (treeToText · (some 2))) = .ok text :=
  ⟨isTyped_taggedItem, treeOfText_treeToText isTyped_taggedItem (some 2)⟩

end Canonmark
