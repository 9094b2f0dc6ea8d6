import Canonmark.Proofs.Markdown.TokenEvents
import Canonmark.Proofs.Node.RoundTrip
import Mathlib.Data.List.Forall2

/-! The typed nodes that tokens stand for, and the document that is read from a text with such
tokens. -/
namespace Canonmark.Markdown

open Schema (Place nodeOfJson classKey childrenKey containerDraft)
open TokenForm (Follows)

/-- Values that are read as the given nodes, wherever they stand. -/
def Denote (values : List Json) (ns : List Node) : Prop :=
  List.Forall₂ (fun v n => ∀ place, nodeOfJson place v = .ok n) values ns

/-- Events from which the given nodes are read. -/
def Gives (ns : List Node) (r : Except Token.Fault (List Event)) : Prop :=
  ∃ values, Follows [] values r ∧ Denote values ns

variable {ns ms : List Node} {r q : Except Token.Fault (List Event)} {attributes : Members}

theorem Denote.nodesOfJson {values : List Json} (h : Denote values ns) (place : Place) (i : Nat) :
    Schema.nodesOfJson place i values = .ok ns := by
  induction h generalizing i with
  | nil => rfl
  | cons hn _ ih =>
    rw [Schema.nodesOfJson, hn]
    simp only [bind, Except.bind, ih (i + 1)]

theorem Denote.childrenOf {values : List Json} (h : Denote values ns) {members : Members}
    (absent : childrenKey ∉ members.names) (place : Place) :
    Schema.childrenOf place (members ++ Schema.childrenMember values) = .ok ns := by
  cases h with
  | nil =>
    rw [Schema.childrenOf_eq, Schema.childrenMember, List.append_nil,
      Members.get?_eq_none_iff.mpr absent]
  | cons hn h =>
    rw [Schema.childrenMember, Schema.childrenOf_written place members absent]
    exact Denote.nodesOfJson (.cons hn h) place 0

theorem gives_nil : Gives [] (.ok []) := ⟨[], TokenForm.follows_nil, .nil⟩

theorem Gives.append (h : Gives ns r) (h' : Gives ms q) :
    Gives (ns ++ ms) (do let first ← r; let last ← q; pure (first ++ last)) := by
  obtain ⟨values, hr, hread⟩ := h
  obtain ⟨others, hq, hothers⟩ := h'
  exact ⟨values ++ others, hr.append hq, List.rel_append hread hothers⟩

/-- An element whose attributes are those of a container, around events that give its children. -/
theorem Gives.branch {c : Container} (common : c.kind.isCommon) (other : c.kind ≠ .document)
    (suits : Element.Suits c.kind attributes) (plain : ClassTag.storesText c.kind.classTag = false)
    (draft : ∀ place, Schema.draftOf place c.kind attributes = .ok (containerDraft c))
    (h : Gives ns r) :
    Gives [.branch c none ns] (r.map (Event.element c.kind.elementName attributes)) := by
  obtain ⟨values, hr, hread⟩ := h
  have room := Schema.hasChildren_container c
  refine ⟨_, hr.branch common other room suits plain, .cons (fun place => ?_) .nil⟩
  have known : ∀ n ∈ attributes.names, n ∈ c.kind.properties := fun n hn => (suits.known n hn).1
  have lays := Schema.lays_members known none (Schema.childrenMember values)
    (by cases values <;> simp [Schema.childrenMember, room])
  have absent : childrenKey ∉ Members.names ((classKey, .str c.kind.classTag) :: attributes) := by
    rw [Members.names_cons, List.mem_cons, not_or]
    exact ⟨by decide, fun h => (Schema.not_mem_properties c.kind).2.2 (known _ h)⟩
  rw [Schema.spanMember, List.append_nil] at lays
  exact Schema.nodeOfJson_of_lays lays (by simp) (draft place)
    (by rw [if_pos room]; exact hread.childrenOf absent place)
    (Schema.complete_containerDraft c place none ns)

/-- An element whose attributes and text are those of a leaf. -/
theorem gives_leaf {l : Leaf} {text : String} (common : l.kind.isCommon)
    (other : l.kind ≠ .document) (suits : Element.Suits l.kind attributes)
    (stores : text ≠ "" → ClassTag.storesText l.kind.classTag)
    (draft : ∀ place, Schema.draftOf place l.kind
      (attributes ++ if text = "" then [] else [("text", .str text)]) = .ok (.leaf l)) :
    Gives [.leaf l none] (.ok (Event.leaf l.kind.elementName attributes text)) := by
  refine ⟨_, TokenForm.follows_leaf common other suits stores, .cons (fun place => ?_) .nil⟩
  have known : ∀ n ∈ Members.names (attributes ++ if text = "" then [] else [("text", .str text)]),
      n ∈ l.kind.properties := by
    intro n hn
    rw [Members.names_append, List.mem_append] at hn
    obtain hn | hn := hn
    · exact (suits.known n hn).1
    · split_ifs at hn with htext
      · cases hn
      · rw [List.mem_singleton.mp hn]
        exact Element.text_mem_properties (stores htext)
  have lays := Schema.lays_members known none [] (by simp)
  rw [Schema.spanMember, List.append_nil, List.append_nil] at lays
  exact Schema.nodeOfJson_of_lays lays (by simp) (draft place)
    (by rw [Schema.hasChildren_leaf]; rfl) rfl

variable {content : List Token}

theorem gives_wrapper {w : Wrapper} {c : Container} (hc : c.kind = w.kind)
    (h : Gives ns (Token.eventsOf content)) :
    Gives [.branch c none ns] (Token.events (.wrapper w content)) := by
  have suits : Element.Suits c.kind [] := by
    cases w <;> exact TokenForm.suits_nil (by rw [hc]; rfl) (by rw [hc]; decide)
  rw [Token.events, ← hc]
  refine h.branch ?_ ?_ suits ?_ ?_
  · cases w <;> rw [hc] <;> rfl
  · cases w <;> rw [hc] <;> decide
  · cases w <;> rw [hc] <;> rfl
  · intro place
    cases w <;> cases c <;> first | rfl | cases hc

theorem gives_heading (level : Level) (h : Gives ns (Token.eventsOf content)) :
    Gives [.branch (.heading level) none ns] (Token.events (.heading level.text content)) := by
  rw [Token.events]
  exact h.branch rfl (by simp [Container.kind]) (TokenForm.suits_heading level) rfl fun _ => rfl

/-- The properties of a list with such a numbering. -/
def listDataOf (numbering : Option Numbering) (tight : Bool) : ListData where
  listType := if numbering.isSome then "ordered" else "bullet"
  start := numbering.map (·.start)
  tight := some (if tight then "true" else "false")
  delimiter := numbering.map fun n => if n.paren then "paren" else "period"

theorem gives_list (numbering : Option Numbering)
    (tight : Bool) (h : Gives ns (Token.eventsOf content)) :
    Gives [.branch (.list (listDataOf numbering tight)) none ns]
      (Token.events (.list numbering tight content)) := by
  have suits : Element.Suits .list (Token.listAttributes numbering tight) := by
    cases numbering with
    | none =>
      exact TokenForm.suits_of_names ["type", "tight"] rfl (by simp [Token.listAttributes])
        (by decide) (by decide) (by decide) (by simp)
    | some n =>
      exact TokenForm.suits_of_names ["type", "tight", "start", "delimiter"] rfl
        (by simp [Token.listAttributes]) (by decide) (by decide) (by decide) (by simp)
  rw [Token.events]
  refine h.branch rfl (by simp [Container.kind]) suits rfl fun place => ?_
  cases numbering <;> rfl

theorem gives_text (raw : String) :
    Gives [.leaf (.text (Token.decoded raw)) none] (Token.events (.text raw)) := by
  rw [Token.events]
  refine gives_leaf rfl (by simp [Leaf.kind]) (TokenForm.suits_nil rfl (by simp [Leaf.kind]))
    (fun _ => rfl) fun place => ?_
  by_cases htext : Token.decoded raw = ""
  · rw [if_pos htext, htext]
    rfl
  · rw [if_neg htext]
    rfl

theorem gives_sign {s : Sign} {l : Leaf} (hl : l.kind = s.kind) :
    Gives [.leaf l none] (Token.events (.sign s)) := by
  have suits : Element.Suits l.kind [] := by
    cases s <;> exact TokenForm.suits_nil (by rw [hl]; rfl) (by rw [hl]; decide)
  rw [Token.events, ← hl]
  refine gives_leaf ?_ ?_ suits (fun h => absurd rfl h) fun place => ?_
  · cases s <;> rw [hl] <;> rfl
  · cases s <;> rw [hl] <;> decide
  · cases s <;> cases l <;> first | rfl | cases hl

/-- The leaf of a token that holds its text as it is written. -/
def Verbatim.leaf (raw : String) : Verbatim → Leaf
  | .code => .code raw
  | .htmlInline => .htmlInline raw none
  | .htmlBlock => .htmlBlock raw none

theorem gives_verbatim (v : Verbatim) (raw : String) :
    Gives [.leaf (v.leaf raw) none] (Token.events (.verbatim v raw)) := by
  have hkind : (v.leaf raw).kind = v.kind := by cases v <;> rfl
  rw [Token.events, ← hkind]
  refine gives_leaf ?_ ?_ (TokenForm.suits_nil ?_ ?_) (fun _ => ?_) fun place => ?_
  · cases v <;> rfl
  · cases v <;> simp [Verbatim.leaf, Leaf.kind]
  · cases v <;> rfl
  · cases v <;> simp [Verbatim.leaf, Leaf.kind]
  · cases v <;> rfl
  · by_cases htext : raw = ""
    · rw [if_pos htext, htext]
      cases v <;> rfl
    · rw [if_neg htext]
      cases v <;> rfl

/-- The info of a block of code, if there is any besides blanks. -/
def codeInfo (info : String) : Option String :=
  if Text.trimString info == "" then none else some (Text.trimString info)

theorem gives_code (info text : String) :
    Gives [.leaf (.codeBlock text (codeInfo info) none) none]
      (Token.events (.codeBlock info text)) := by
  have suits : Element.Suits .codeBlock (Token.infoAttributes info) := by
    unfold Token.infoAttributes
    dsimp only
    split
    · exact TokenForm.suits_nil rfl (by decide)
    · exact TokenForm.suits_of_names ["info"] rfl (by simp) (by decide) (by decide)
        (by decide) (by simp)
  rw [Token.events]
  refine gives_leaf rfl (by simp [Leaf.kind]) suits (fun _ => rfl) fun place => ?_
  unfold Token.infoAttributes codeInfo
  dsimp only
  split
  · by_cases htext : text = ""
    · rw [if_pos htext, htext]
      rfl
    · rw [if_neg htext]
      rfl
  · by_cases htext : text = ""
    · rw [if_pos htext, htext]
      rfl
    · rw [if_neg htext]
      rfl

/-- The container of a token with a destination. -/
def Reference.container (destination title : String) : Reference → Container
  | .link => .link destination title
  | .image => .image destination title

theorem gives_reference (r : Reference) (destination title : String)
    (h : Gives ns (Token.eventsOf content)) :
    Gives [.branch (r.container destination (Token.decoded title)) none ns]
      (Token.events (.reference r (.str destination) (.str title) content)) := by
  have hkind : (r.container destination (Token.decoded title)).kind = r.kind := by cases r <;> rfl
  have suits : Element.Suits r.kind
      [("destination", .str destination), ("title", .str (Token.decoded title))] := by
    cases r with
    | link | image =>
      exact TokenForm.suits_of_names ["destination", "title"] rfl (by simp) (by decide) (by decide)
        (by decide) (by simp [Reference.kind])
  rw [Token.events, ← hkind]
  refine h.branch ?_ ?_ (hkind ▸ suits) ?_ fun place => ?_
  · cases r <;> rfl
  · cases r <;> simp [Reference.container, Container.kind]
  · cases r <;> rfl
  · cases r <;> rfl

/-- Under the default options, text is left as it is. -/
theorem fromMarkdown_default (text : String) :
    fromMarkdown (.text text) none [] = (do
      let events ← markdownEvents text
      let tree ← (Builder.build (some {}) events).mapError Fault.builder
      documentOfJson tree) := by
  change (do let tree ← (do let events ← markdownEvents text; _); documentOfJson tree) = _
  cases markdownEvents text <;> rfl

/-- A text is read as the document of the nodes that its tokens give. -/
theorem fromMarkdown_of_gives {text : String}
    (h : Gives ns (Token.eventsOf (Reader.tokens text.toList))) :
    fromMarkdown (.text text) none [] = .ok (.branch (.document defaultNamespace) none ns) := by
  obtain ⟨values, follows, hread⟩ := h
  obtain ⟨es, hes, sound, rfl⟩ := follows.converts (by simp)
  obtain ⟨root, hfeed, hnode, _⟩ := Element.build_document {} TokenForm.suits_xmlns sound
  have hevents : markdownEvents text = .ok (TokenForm.documentElement es).events := by
    rw [markdownEvents, tokenEvents, Token.documentEvents, hes]
    rfl
  have hbuild : Builder.build (some {}) (TokenForm.documentElement es).events = .ok root.node := by
    rw [Builder.build, TokenForm.documentElement, hfeed]
    rfl
  have hdocument : nodeOfJson .root root.node =
      .ok (.branch (.document defaultNamespace) none ns) := by
    have valid : (TokenForm.documentElement es).Valid :=
      .mk [] Element.snakeCase_documentName (by decide) (by decide) fun e he => (sound e he).valid
    have htree : root.node = (TokenForm.documentElement es).tree :=
      hnode.trans (Element.node_plain valid)
    have lays := @Schema.lays_members .document [("xmlns", .str defaultNamespace)]
      (by decide) none (Schema.childrenMember (Element.trees es))
      (by cases Element.trees es <;> simp [Schema.childrenMember, Kind.hasChildren])
    rw [htree, TokenForm.tree_documentElement]
    exact Schema.nodeOfJson_of_lays lays (by simp) rfl (hread.childrenOf (by decide) .root) rfl
  rw [fromMarkdown_default, hevents]
  simp only [bind, Except.bind, hbuild, Except.mapError]
  rw [documentOfJson, treeOfJson, Schema.ofJson, hdocument]
  rfl

end Canonmark.Markdown
