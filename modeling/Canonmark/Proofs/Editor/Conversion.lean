import Canonmark.Proofs.Editor.Decoded
import Canonmark.Proofs.Node.Acceptance

/-! Nodes that have been decoded always have a canonical form, and this is read as a document. So
the conversion of an editor value fails in decoding or not at all. -/
namespace Canonmark.Editor

open Schema (classKey childrenKey)

/-- Members that a node of some kind can have. Those of a container leave room for children. -/
def Shape.Sound : Shape → Prop
  | .leaf ms => ∃ kind, Schema.Fit kind ms ∧ childrenKey ∉ ms.names
  | .container ms => ∃ kind, kind.hasChildren ∧ Schema.Fit kind ms ∧ childrenKey ∉ ms.names
  | .item => True

variable {kind : Kind} {properties : Members}

theorem childless_of_texts (h : Schema.Texts kind properties) :
    childrenKey ∉ Members.names ((classKey, .str kind.classTag) :: properties) := by
  rw [Members.names_cons, List.mem_cons, not_or]
  exact ⟨by decide, fun hmem => (Schema.not_mem_properties kind).2.2 (h.known _ hmem).1⟩

theorem sound_leaf (h : Schema.Texts kind properties) :
    (Shape.leaf ((classKey, .str kind.classTag) :: properties)).Sound :=
  ⟨kind, Schema.fit_of_texts h, childless_of_texts h⟩

theorem sound_container (h : Schema.Texts kind properties) (room : kind.hasChildren) :
    (Shape.container ((classKey, .str kind.classTag) :: properties)).Sound :=
  ⟨kind, room, Schema.fit_of_texts h, childless_of_texts h⟩

theorem allTexts_optional {name : String} (h : name ∈ kind.properties) (htag : name ≠ "tag")
    (o : Option String) : Schema.AllTexts kind (optional name o) := by
  cases o <;> simp [optional, h, htag]

theorem texts_list (listType : String) (delimiter start tight : Option String) :
    Schema.Texts .list (("type", .str listType) :: (optional "delimiter" delimiter ++
      optional "start" start ++ optional "tight" tight)) := by
  refine Schema.texts_of_members ?_ (by simp [Kind.needed]) (by simp)
  simp only [Schema.allTexts_cons, Schema.allTexts_append]
  exact ⟨⟨by decide, by decide⟩, ⟨allTexts_optional (by decide) (by decide) _,
    allTexts_optional (by decide) (by decide) _⟩, allTexts_optional (by decide) (by decide) _⟩

theorem texts_clause (clauseid src : String) (clauseText : Option String) :
    Schema.Texts .clause (("clauseid", .str clauseid) :: ("src", .str src) ::
      optional "clauseText" clauseText) := by
  refine Schema.texts_of_members ?_ (by simp [Kind.needed]) (by simp)
  simp only [Schema.allTexts_cons]
  exact ⟨⟨by decide, by decide⟩, ⟨by decide, by decide⟩,
    allTexts_optional (by decide) (by decide) _⟩

theorem texts_link (href : String) :
    Schema.Texts .link [("destination", .str href), ("title", .str "")] :=
  Schema.texts_of_members (by simp [Kind.properties]) (by simp [Kind.needed]) (by simp)

theorem texts_variable (id value : String) :
    Schema.Texts .templateVariable [("id", .str id), ("value", .str value)] :=
  Schema.texts_of_members (by simp [Kind.properties]) (by simp [Kind.needed]) (by simp)

theorem texts_computed (value : String) :
    Schema.Texts .computedVariable [("value", .str value)] :=
  Schema.texts_of_members (by simp [Kind.properties]) (by simp [Kind.needed]) (by simp)

theorem texts_text (mem : "text" ∈ kind.properties) (needed : kind.needed = [])
    (other : kind ≠ .heading) (text : String) : Schema.Texts kind [("text", .str text)] :=
  Schema.texts_of_members (by simp [mem]) (by simp [needed]) fun h => absurd h other

/-- Every element with the data of its type has a shape. -/
theorem shape_of_fits {type : String} {data : Option Data} (fits : DataFits type data)
    (text : Option String) : ∃ shape, shape? type data text = some shape ∧ shape.Sound := by
  cases data with
  | none =>
    have paragraph : (Shape.container (common "Paragraph" [])).Sound :=
      sound_container (Schema.texts_nil (show Kind.paragraph.needed = [] from rfl) (by decide)) rfl
    have quote : (Shape.container (common "BlockQuote" [])).Sound :=
      sound_container (Schema.texts_nil (show Kind.blockQuote.needed = [] from rfl) (by decide)) rfl
    have rule : (Shape.leaf (common "ThematicBreak" [])).Sound :=
      sound_leaf (Schema.texts_nil (show Kind.thematicBreak.needed = [] from rfl) (by decide))
    have heading : ∀ l : Level,
        (Shape.container (common "Heading" [("level", .str l.text)])).Sound :=
      fun l => sound_container (Schema.texts_heading l) rfl
    have own : ∀ k : Kind, "text" ∈ k.properties → k.needed = [] → k ≠ .heading →
        (Shape.leaf ((classKey, .str k.classTag) :: [("text", .str (text.getD ""))])).Sound :=
      fun k mem needed other => sound_leaf (texts_text mem needed other _)
    simp only [DataFits, plainTypes, headingLevels, List.map_cons, List.map_nil, List.cons_append,
      List.nil_append, List.mem_cons, List.not_mem_nil, or_false] at fits
    rcases fits with rfl | rfl | rfl | rfl | rfl | rfl | rfl | rfl | rfl | rfl | rfl
      | rfl | rfl | rfl
    · exact ⟨_, rfl, paragraph⟩
    · exact ⟨_, rfl, quote⟩
    · exact ⟨_, rfl, quote⟩
    · exact ⟨_, rfl, rule⟩
    · exact ⟨_, rfl, own .codeBlock (by decide) rfl (by decide)⟩
    · exact ⟨_, rfl, own .htmlBlock (by decide) rfl (by decide)⟩
    · exact ⟨_, rfl, own .htmlInline (by decide) rfl (by decide)⟩
    · exact ⟨.item, rfl, trivial⟩
    · exact ⟨_, rfl, heading .one⟩
    · exact ⟨_, rfl, heading .two⟩
    · exact ⟨_, rfl, heading .three⟩
    · exact ⟨_, rfl, heading .four⟩
    · exact ⟨_, rfl, heading .five⟩
    · exact ⟨_, rfl, heading .six⟩
  | some d =>
    cases d with
    | list delimiter start tight =>
      rcases fits with rfl | rfl
      · exact ⟨_, rfl, sound_container (texts_list _ delimiter start tight) rfl⟩
      · exact ⟨_, rfl, sound_container (texts_list _ delimiter start tight) rfl⟩
    | link href =>
      obtain rfl := fits
      exact ⟨_, rfl, sound_container (texts_link href) rfl⟩
    | clause clauseid src clauseText =>
      obtain rfl := fits
      exact ⟨_, rfl, sound_container (texts_clause clauseid src clauseText) rfl⟩
    | templateVariable id value =>
      obtain rfl := fits
      exact ⟨_, rfl, sound_container (texts_variable id value) rfl⟩
    | computed value =>
      obtain rfl := fits
      exact ⟨_, rfl, sound_container (texts_computed value) rfl⟩

theorem valid_leaf {ms : Members} (fit : Schema.Fit kind ms) (childless : childrenKey ∉ ms.names) :
    Schema.Valid (.obj ms) := by
  refine .node fit ?_
  rw [Schema.childValues, Json.itemsAt, Members.get?_eq_none_iff.mpr childless]
  simp

theorem valid_withNodes {ms : Members} {vs : List Json} (fit : Schema.Fit kind ms)
    (room : kind.hasChildren) (childless : childrenKey ∉ ms.names)
    (below : ∀ v ∈ vs, Schema.Valid v) : Schema.Valid (withNodes ms vs) := by
  refine .node (fit.withChildren room childless vs) ?_
  rw [Schema.childValues_withChildren childless]
  exact below

theorem valid_container {vs : List Json} (kind : Kind) (needed : kind.needed = [])
    (other : kind ≠ .heading) (room : kind.hasChildren) (below : ∀ v ∈ vs, Schema.Valid v) :
    Schema.Valid (withNodes [(classKey, .str kind.classTag)] vs) :=
  have texts := Schema.texts_nil needed other
  valid_withNodes (Schema.fit_of_texts texts) room (childless_of_texts texts) below

theorem valid_composeMarks (text : String) (marks : List String) :
    Schema.Valid (composeMarks text marks) := by
  have leaf : ∀ k : Kind, "text" ∈ k.properties → k.needed = [] → k ≠ .heading →
      Schema.Valid (.obj ((classKey, .str k.classTag) :: [("text", .str text)])) := by
    intro k mem needed other
    have texts := texts_text mem needed other text
    exact valid_leaf (Schema.fit_of_texts texts) (childless_of_texts texts)
  have around : ∀ k : Kind, k.needed = [] → k ≠ .heading → k.hasChildren →
      ∀ v, Schema.Valid v → Schema.Valid (withNodes [(classKey, .str k.classTag)] [v]) :=
    fun k needed other room v hv => valid_container k needed other room (by simpa using hv)
  have plain := leaf .text (by decide) rfl (by decide)
  have bold := around .strong rfl (by decide) rfl _ plain
  unfold composeMarks
  dsimp only
  by_cases hbold : marks.contains "bold"
  · rw [if_pos hbold]
    split_ifs
    · exact leaf .code (by decide) rfl (by decide)
    · exact around .emph rfl (by decide) rfl _ bold
    · exact bold
  · rw [if_neg hbold]
    split_ifs
    · exact leaf .code (by decide) rfl (by decide)
    · exact around .emph rfl (by decide) rfl _ plain
    · exact plain

theorem toTrees_of_forall {ns : List Node} (h : ∀ n ∈ ns, ∃ t, toTree n = .ok t ∧ Schema.Valid t) :
    ∃ ts, toTrees ns = .ok ts ∧ ∀ t ∈ ts, Schema.Valid t := by
  induction ns with
  | nil => exact ⟨[], rfl, by simp⟩
  | cons n ns ih =>
    obtain ⟨t, ht, hvalid⟩ := h n (by simp)
    obtain ⟨ts, hts, hvalids⟩ := ih fun m hm => h m (by simp [hm])
    refine ⟨t :: ts, ?_, by simpa using ⟨hvalid, hvalids⟩⟩
    rw [toTrees, ht, hts]
    rfl

/-- A node that has been decoded has a tree, and the tree is valid. -/
theorem toTree_of_decoded {n : Node} (h : Decoded n) : ∃ t, toTree n = .ok t ∧ Schema.Valid t := by
  induction h with
  | @text marks text _ => exact ⟨_, rfl, valid_composeMarks text marks⟩
  | @element type data nodes text fits _ _ ih =>
    obtain ⟨shape, hshape, sound⟩ := shape_of_fits fits text
    obtain ⟨ts, hts, hvalid⟩ := toTrees_of_forall ih
    rw [toTree, hshape]
    cases shape with
    | leaf ms =>
      obtain ⟨kind, fit, childless⟩ := sound
      exact ⟨.obj ms, rfl, valid_leaf fit childless⟩
    | container ms =>
      obtain ⟨kind, room, fit, childless⟩ := sound
      exact ⟨withNodes ms ts, by rw [hts]; rfl, valid_withNodes fit room childless hvalid⟩
    | item =>
      refine ⟨withNodes (common "Item" []) [withNodes (common "Paragraph" []) ts],
        by rw [hts]; rfl, ?_⟩
      refine valid_container .item rfl (by decide) rfl fun v hv => ?_
      rw [List.mem_singleton.mp hv]
      exact valid_container .paragraph rfl (by decide) rfl hvalid

/-- The document around some trees. -/
def documentOfTrees (ts : List Json) : Json :=
  withNodes (common "Document" [("xmlns", .str defaultNamespace)]) ts

theorem document_eq {ns : List Node} {ts : List Json} (h : toTrees ns = .ok ts) :
    document ns = .ok (documentOfTrees ts) := by
  have hget : Members.get? (common "Document" [("xmlns", .str defaultNamespace),
      (childrenKey, .arr [])]) childrenKey = some (.arr []) := rfl
  rw [document, addTo, hget]
  simp only [h]
  rfl

/-- Nodes that have been decoded become a document that reading takes. -/
theorem document_of_decoded {ns : List Node} (h : ∀ n ∈ ns, Decoded n) :
    ∃ ts n, toTrees ns = .ok ts ∧ document ns = .ok (documentOfTrees ts) ∧
      documentOfJson (documentOfTrees ts) = .ok n := by
  obtain ⟨ts, hts, hvalid⟩ := toTrees_of_forall fun n hn => toTree_of_decoded (h n hn)
  have texts : Schema.Texts .document [("xmlns", .str defaultNamespace)] :=
    Schema.texts_of_members (by simp [Kind.properties]) (by simp [Kind.needed]) (by simp)
  have childless := childless_of_texts texts
  have fit := (Schema.fit_of_texts texts).withChildren rfl childless ts
  obtain ⟨n, hn⟩ := Schema.documentOfJson_of_valid fit fun v hv => hvalid v
    (Schema.childValues_withChildren childless ts ▸ hv)
  exact ⟨ts, n, hts, document_eq hts, hn⟩

/-- A source of an editor value: an object itself, or anything that holds JSON text of the value. -/
inductive Holds : Source → Json → Prop
  | object (ms : Members) : Holds (.value (.obj ms)) (.obj ms)
  | written {source : Source} {text : String} {v : Json} (load : loadText source = .ok text)
      (value : Json.ofText? text = some v) : Holds source v

theorem editorValue_of_holds {source : Source} {v : Json} (h : Holds source v) :
    editorValue source = .ok v := by
  cases h with
  | object ms => rfl
  | @written _ text _ load value =>
    unfold editorValue
    split
    · cases load
    · rw [load]
      simp only [bind, Except.bind, value]
      rfl

/-- From every source of a value, and under all options for the editor, conversion has this
outcome. -/
def ConvertsTo (v : Json) (outcome : Except Canonmark.Fault Json) : Prop :=
  ∀ source, Holds source v → ∀ options overrides o,
    mergeOptions .editorParser options overrides = .ok o → o.cls = .editorParser →
      editorToJson source options overrides = outcome

theorem editorTree_eq {source : Source} {v : Json} (h : Holds source v) :
    editorTree source =
      ((ofJson v).mapError Canonmark.Fault.editor >>= fun ns =>
        (document ns).mapError Canonmark.Fault.mapping) := by
  rw [editorTree, editorValue_of_holds h]
  rfl

theorem editorToJson_eq {options : Option Options} {overrides : Members} {o : Options}
    (ho : mergeOptions .editorParser options overrides = .ok o) (hcls : o.cls = .editorParser)
    (source : Source) :
    editorToJson source options overrides = editorTree source >>= checked o.reader := by
  have hoptions : editorOptions (some o) = .ok o.reader := by
    simp [editorOptions, expectOptions, OptionClass.refines, hcls, Except.map]
  rw [editorToJson, ho]
  simp only [bind, Except.bind, hoptions]

theorem convertsTo_error {v : Json} {f : Fault} (h : ofJson v = .error f) :
    ConvertsTo v (.error (.editor f)) := by
  intro source holds options overrides o ho hcls
  rw [editorToJson_eq ho hcls, editorTree_eq holds, h]
  rfl

/-- A tree that reading takes is the outcome with and without a check. -/
theorem convertsTo_ok {v tree : Json} {ns : List Node} {n : Canonmark.Node} (h : ofJson v = .ok ns)
    (htree : document ns = .ok tree) (hread : documentOfJson tree = .ok n) :
    ConvertsTo v (.ok tree) := by
  intro source holds options overrides o ho hcls
  have hchecked : checked o.reader tree = .ok tree := by
    rw [checked, hread]
    split_ifs <;> rfl
  rw [editorToJson_eq ho hcls, editorTree_eq holds, h]
  simp only [Except.mapError, bind, Except.bind, htree, hchecked]

/-- What is wrong with a value is a matter of validation, or it is a node that decoding does not
know. -/
theorem family_of_fault (f : Fault) :
    (Canonmark.Fault.editor f).report.family = .failure .validation ∨
      (Canonmark.Fault.editor f).report.family = .failure .unhandledNode ∧
        (Canonmark.Fault.editor f).report.stage = some "decode" := by
  cases f with
  | unhandled v => exact .inr ⟨rfl, rfl⟩
  | _ => exact .inl rfl

/-- An editor value is refused in decoding, or it becomes a document that reading takes. Its
conversion has the same outcome as its decoding, whether the tree is checked or not. -/
theorem conversion_follows_decoding (v : Json) :
    (∃ f, ofJson v = .error f ∧
      ((Canonmark.Fault.editor f).report.family = .failure .validation ∨
        (Canonmark.Fault.editor f).report.family = .failure .unhandledNode ∧
          (Canonmark.Fault.editor f).report.stage = some "decode") ∧
      ConvertsTo v (.error (.editor f))) ∨
    ∃ ns tree n, ofJson v = .ok ns ∧ document ns = .ok tree ∧ documentOfJson tree = .ok n ∧
      ConvertsTo v (.ok tree) := by
  cases h : ofJson v with
  | error f => exact .inl ⟨f, rfl, family_of_fault f, convertsTo_error h⟩
  | ok ns =>
    obtain ⟨ts, n, _, htree, hread⟩ := document_of_decoded (decoded_of_ofJson h)
    exact .inr ⟨ns, documentOfTrees ts, n, rfl, htree, hread, convertsTo_ok h htree hread⟩

theorem mergeOptions_default :
    mergeOptions .editorParser none [] = .ok ⟨.editorParser, [("validate", .bool true)]⟩ := rfl

/-- An item in no list, and a block of code that has its text in its children. -/
def looseItem : Members := [("nodes", .arr [
  .obj [("type", .str "list_item"), ("nodes", .arr [
    .obj [("type", .str "code_block"), ("nodes", .arr [
      .obj [("object", .str "text"), ("text", .str "a")]])]])]])]

theorem conversion_of_looseItem :
    editorToJson (.value (.obj looseItem)) none [] =
      .ok (.obj [("$class", .str "org.accordproject.commonmark.Document"),
        ("xmlns", .str "http://commonmark.org/xml/1.0"),
        ("nodes", .arr [.obj [("$class", .str "org.accordproject.commonmark.Item"),
          ("nodes", .arr [.obj [("$class", .str "org.accordproject.commonmark.Paragraph"),
            ("nodes", .arr [.obj [("$class", .str "org.accordproject.commonmark.CodeBlock"),
              ("text", .str "a")]])]])]])]) := by
  have hdecode : ofJson (.obj looseItem) =
      .ok [.element "list_item" none
        [.element "code_block" none [.text "a" []] (some "a")] none] := rfl
  cases conversion_follows_decoding (.obj looseItem) with
  | inl h =>
    obtain ⟨f, hf, _⟩ := h
    rw [hdecode] at hf
    cases hf
  | inr h =>
    obtain ⟨ns, tree, n, hns, htree, _, hconverts⟩ := h
    rw [hdecode, Except.ok.injEq] at hns
    subst hns
    rw [hconverts _ (.object looseItem) none [] _ mergeOptions_default rfl]
    exact congrArg Except.ok (Except.ok.inj (htree.symm.trans rfl))

/-- A text is read for the value that it denotes, though the text itself has no nodes. -/
theorem conversion_of_text_value :
    (∃ tree, editorToJson (.value (.str "\x7b\"nodes\": []\x7d")) none [] = .ok tree) ∧
      ¬ ∃ ns, ofJson (.str "\x7b\"nodes\": []\x7d") = .ok ns := by
  have hok : (editorToJson (.value (.str "\x7b\"nodes\": []\x7d")) none []).isOk := by
    decide +kernel
  constructor
  · cases hr : editorToJson (.value (.str "\x7b\"nodes\": []\x7d")) none [] with
    | error f =>
      rw [hr] at hok
      cases hok
    | ok tree => exact ⟨tree, rfl⟩
  · rintro ⟨ns, hns⟩
    cases hns

end Canonmark.Editor
