import Canonmark.Proofs.Node.Acceptance
import Canonmark.Proofs.Node.Span

/-! Typed trees are read back from their JSON form as they are, each node from the members that are
written for it. -/
namespace Canonmark

/-- A tree without foreign values, none of whose spans is too long to be written. -/
inductive Node.IsTyped : Node → Prop
  | leaf (l : Leaf) {span : Option Span} (writable : ∀ s ∈ span, s.IsWritable) :
      IsTyped (.leaf l span)
  | branch (c : Container) {span : Option Span} {children : List Node}
      (writable : ∀ s ∈ span, s.IsWritable) (below : ∀ n ∈ children, IsTyped n) :
      IsTyped (.branch c span children)

namespace Schema

variable {place : Place} {kind : Kind} {ms properties : Members}

/-- Members that hold a class, properties and a span, and perhaps children. -/
structure Lays (kind : Kind) (properties : Members) (span : Option Span) (ms : Members) : Prop where
  cls : ms.get? classKey = some (.str kind.classTag)
  properties : ∀ n ∈ kind.properties, ms.get? n = properties.get? n
  span : ms.given? spanKey = span.map fun s => .str s.toText
  names : ∀ n ∈ ms.names, n ∈ allowed kind

theorem get?_spanMember (span : Option Span) (n : String) :
    Members.get? (spanMember span) n =
      if n = spanKey then span.map fun s => .str s.toText else none := by
  cases span with
  | none => simp [spanMember]
  | some s => rw [spanMember, Members.get?_cons, Members.get?_nil, Option.map_some]

theorem names_spanMember (span : Option Span) :
    ∀ n ∈ Members.names (spanMember span), n = spanKey := by
  cases span <;> simp [spanMember]

theorem lays_members (known : ∀ n ∈ properties.names, n ∈ kind.properties) (span : Option Span)
    (rest : Members) (room : ∀ n ∈ rest.names, kind.hasChildren ∧ n = childrenKey) :
    Lays kind properties span
      ((classKey, .str kind.classTag) :: properties ++ spanMember span ++ rest) := by
  obtain ⟨hclass, hspan, hchildren⟩ := not_mem_properties kind
  have hget : ∀ n, n ≠ classKey → n ≠ childrenKey →
      Members.get? ((classKey, .str kind.classTag) :: properties ++ spanMember span ++ rest) n =
        (properties.get? n).or (Members.get? (spanMember span) n) := by
    intro n hn hnc
    have hrest : rest.get? n = none := Members.get?_eq_none_iff.mpr fun h => hnc (room n h).2
    rw [Members.get?_append, Members.get?_append, Members.get?_cons_ne hn, hrest, Option.or_none]
  constructor
  · rw [Members.get?_append, Members.get?_append, Members.get?_cons_self]
    rfl
  · intro n hn
    have hnspan : n ≠ spanKey := fun heq => hspan (heq ▸ hn)
    rw [hget n (fun heq => hclass (heq ▸ hn)) (fun heq => hchildren (heq ▸ hn)), get?_spanMember,
      if_neg hnspan, Option.or_none]
  · have hnone : properties.get? spanKey = none :=
      Members.get?_eq_none_iff.mpr fun h => hspan (known _ h)
    rw [Members.given?, hget _ (by decide) (by decide), hnone, Option.none_or, get?_spanMember,
      if_pos rfl]
    cases span <;> rfl
  · intro n hn
    simp only [Members.names_append, Members.names_cons, List.mem_append, List.mem_cons] at hn
    obtain ((rfl | hn) | hn) | hn := hn
    · simp [allowed]
    · simp [allowed, known n hn]
    · simp [allowed, names_spanMember span n hn]
    · simp [allowed, room n hn]

/-- The properties of a node are read from the members that have their names. -/
theorem draftOf_congr (h : ∀ n ∈ kind.properties, ms.get? n = properties.get? n) (place : Place) :
    draftOf place kind ms = draftOf place kind properties := by
  have hrequired : ∀ n ∈ kind.properties, required place kind ms n =
      required place kind properties n :=
    fun n hn => by rw [required, required, Members.given?_congr (h n hn)]
  have hoptional : ∀ n ∈ kind.properties, optional place ms n = optional place properties n :=
    fun n hn => by rw [optional, optional, Members.given?_congr (h n hn)]
  have htag : "tag" ∈ kind.properties → optionalTag place ms = optionalTag place properties :=
    fun hn => by rw [optionalTag, optionalTag, Members.given?_congr (h _ hn)]
  cases kind <;> simp_all [draftOf, withDefault, Kind.properties]

/-- The properties of a container as they are read. -/
def containerDraft : Container → Draft
  | .heading l => .heading l.text
  | c => .container c

theorem optional_eq_ok_iff {n : String} {o : Option String} :
    optional place ms n = .ok o ↔ ms.given? n = o.map .str := by
  unfold optional
  cases ms.given? n with
  | none => cases o <;> simp
  | some v => cases v <;> cases o <;> simp [requireText, fail, Except.map]

theorem optionalTag_of_given? {o : Option TagInfo} (h : ms.given? "tag" = o.map tagToJson) :
    optionalTag place ms = .ok o := by
  rw [optionalTag, h]
  cases o with
  | none => rfl
  | some t => simp only [Option.map_some, tagOfJson_tagToJson, Except.map]

theorem draftOf_leafMembers (l : Leaf) (place : Place) :
    draftOf place l.kind (leafMembers l) = .ok (.leaf l) := by
  cases l with
  | codeBlock text info tag =>
    have htext : withDefault place (leafMembers (.codeBlock text info tag)) "text" "" = .ok text :=
      rfl
    have hinfo : optional place (leafMembers (.codeBlock text info tag)) "info" = .ok info :=
      optional_eq_ok_iff.mpr (by cases info <;> cases tag <;> rfl)
    have htag : optionalTag place (leafMembers (.codeBlock text info tag)) = .ok tag :=
      optionalTag_of_given? (by cases info <;> cases tag <;> rfl)
    simp only [Leaf.kind, draftOf, htext, hinfo, htag]
    rfl
  | htmlBlock text tag =>
    have htag : optionalTag place (leafMembers (.htmlBlock text tag)) = .ok tag :=
      optionalTag_of_given? (by cases tag <;> rfl)
    simp only [Leaf.kind, draftOf, htag]
    rfl
  | htmlInline text tag =>
    have htag : optionalTag place (leafMembers (.htmlInline text tag)) = .ok tag :=
      optionalTag_of_given? (by cases tag <;> rfl)
    simp only [Leaf.kind, draftOf, htag]
    rfl
  | _ => rfl

theorem draftOf_containerMembers (c : Container) (place : Place) :
    draftOf place c.kind (containerMembers c) = .ok (containerDraft c) := by
  cases c with
  | list data =>
    obtain ⟨listType, start, tight, delimiter⟩ := data
    cases start <;> cases tight <;> cases delimiter <;> rfl
  | clause clauseid src clauseText => cases clauseText <;> rfl
  | _ => rfl

theorem complete_containerDraft (c : Container) (place : Place) (span : Option Span)
    (children : List Node) :
    (containerDraft c).complete place span children = .ok (.branch c span children) := by
  cases c with
  | heading l => simp [containerDraft, Draft.complete]
  | _ => rfl

theorem known_leafMembers (l : Leaf) :
    ∀ n ∈ Members.names (leafMembers l), n ∈ l.kind.properties := by
  cases l with
  | codeBlock text info tag =>
    cases info <;> cases tag <;>
      simp [leafMembers, textMember, optionalMember, tagMember, Leaf.kind, Kind.properties]
  | htmlBlock text tag | htmlInline text tag =>
    cases tag <;> simp [leafMembers, textMember, tagMember, Leaf.kind, Kind.properties]
  | _ => simp [leafMembers, textMember, Leaf.kind, Kind.properties]

theorem known_containerMembers (c : Container) :
    ∀ n ∈ Members.names (containerMembers c), n ∈ c.kind.properties := by
  cases c with
  | list data =>
    obtain ⟨listType, start, tight, delimiter⟩ := data
    cases start <;> cases tight <;> cases delimiter <;>
      simp [containerMembers, textMember, optionalMember, Container.kind, Kind.properties]
  | clause clauseid src clauseText =>
    cases clauseText <;>
      simp [containerMembers, textMember, optionalMember, Container.kind, Kind.properties]
  | _ => simp [containerMembers, textMember, Container.kind, Kind.properties]

theorem hasChildren_leaf (l : Leaf) : l.kind.hasChildren = false := by
  cases l <;> rfl

theorem hasChildren_container (c : Container) : c.kind.hasChildren = true := by
  cases c <;> rfl

/-- A node is read from members that hold what it is made of. -/
theorem nodeOfJson_of_lays {span : Option Span} {draft : Draft} {children : List Node} {n : Node}
    (lays : Lays kind properties span ms) (writable : ∀ s ∈ span, s.IsWritable)
    (hdraft : draftOf place kind properties = .ok draft)
    (hchildren : (if kind.hasChildren then childrenOf place ms else .ok []) = .ok children)
    (hcomplete : draft.complete place span children = .ok n) :
    nodeOfJson place (.obj ms) = .ok n := by
  have hkind : kindOf place ms = .ok kind := by simp [kindOf, Members.given?, lays.cls]
  have hnames : checkNames place kind ms = .ok () := by
    have hnil : ms.names.filter (fun n => !(allowed kind).contains n) = [] := by
      simpa [List.filter_eq_nil_iff] using lays.names
    rw [checkNames, hnil]
  have hspan : spanOf place kind ms = .ok span := by
    rw [spanOf, lays.span]
    cases span with
    | none => rfl
    | some s => simp [requireText, bind, Except.bind, Span.ofText_toText (writable s rfl)]
  rw [nodeOfJson, hkind]
  simp only [bind, Except.bind, hnames, draftOf_congr lays.properties, hdraft, hspan]
  by_cases hk : kind.hasChildren
  · rw [if_pos hk] at hchildren ⊢
    rw [hchildren]
    exact hcomplete
  · rw [if_neg hk, Except.ok.injEq] at hchildren
    rw [if_neg hk, hchildren]
    exact hcomplete

theorem toJsonList_eq_map (ns : List Node) : toJsonList ns = ns.map toJson := by
  induction ns with
  | nil => rfl
  | cons n ns ih => rw [toJsonList, ih, List.map_cons]

theorem nodesOfJson_map {ns : List Node}
    (h : ∀ n ∈ ns, ∀ place, nodeOfJson place (toJson n) = .ok n) (place : Place) (i : Nat) :
    nodesOfJson place i (ns.map toJson) = .ok ns := by
  induction ns generalizing i with
  | nil => rfl
  | cons n ns ih =>
    rw [List.map_cons, nodesOfJson, h n (by simp)]
    simp only [bind, Except.bind, ih fun m hm => h m (by simp [hm])]

theorem childrenOf_written (place : Place) (ms : Members) (absent : childrenKey ∉ ms.names)
    (vs : List Json) :
    childrenOf place (ms ++ [(childrenKey, .arr vs)]) = nodesOfJson place 0 vs := by
  rw [childrenOf_eq, Members.get?_append, Members.get?_eq_none_iff.mpr absent, Option.none_or,
    Members.get?_cons_self]
  rfl

theorem nodeOfJson_toJson {n : Node} (h : n.IsTyped) :
    ∀ place, nodeOfJson place (toJson n) = .ok n := by
  induction h with
  | @leaf l span writable =>
    intro place
    have lays := lays_members (known_leafMembers l) span [] (by simp)
    rw [List.append_nil] at lays
    exact nodeOfJson_of_lays lays writable (draftOf_leafMembers l place)
      (by rw [hasChildren_leaf]; rfl) rfl
  | @branch c span children writable _ ih =>
    intro place
    have lays := lays_members (known_containerMembers c) span
      [(childrenKey, .arr (toJsonList children))] (by simp [hasChildren_container])
    have absent : childrenKey ∉ Members.names
        ((classKey, .str c.kind.classTag) :: containerMembers c ++ spanMember span) := by
      simp only [Members.names_append, Members.names_cons, List.mem_append, List.mem_cons]
      rintro ((hclass | hproperty) | hspan)
      · exact absurd hclass (by decide)
      · exact (not_mem_properties c.kind).2.2 (known_containerMembers c _ hproperty)
      · exact absurd (names_spanMember span _ hspan) (by decide)
    refine nodeOfJson_of_lays lays writable (draftOf_containerMembers c place) ?_
      (complete_containerDraft c place span children)
    rw [hasChildren_container, if_pos rfl, childrenOf_written _ _ absent, toJsonList_eq_map,
      nodesOfJson_map ih]

theorem foreignIn?_eq_none_iff {ns : List Node} :
    foreignIn? ns = none ↔ ∀ n ∈ ns, foreign? n = none := by
  induction ns with
  | nil => simp [foreignIn?]
  | cons n ns ih => simp [foreignIn?, ih]

theorem foreign?_of_isTyped {n : Node} (h : n.IsTyped) : foreign? n = none := by
  induction h with
  | leaf => rw [foreign?]
  | branch _ _ _ ih => rw [foreign?, foreignIn?_eq_none_iff.mpr ih]

end Schema

/-- A typed tree has a JSON form, and from this form it is read back in every part. -/
theorem treeOfJson_treeToJson {n : Node} (typed : n.IsTyped) :
    ∃ v, treeToJson n = .ok v ∧ treeOfJson v = .ok n := by
  refine ⟨Schema.toJson n, ?_, ?_⟩
  · rw [treeToJson, Schema.foreign?_of_isTyped typed]
  · rw [treeOfJson, Schema.ofJson, Schema.nodeOfJson_toJson typed]
    rfl

/-- An item that holds a tag, in a list that has been numbered by hand. -/
def taggedItem : Node :=
  .branch (.list { listType := "ordered", start := some "07", delimiter := some "paren" })
    (some ⟨1, 1, 20, 0⟩)
    [.branch .item none [.leaf (.htmlInline "<b id='x'>"
      (some { tagName := "b", attributes := [⟨"id", "x"⟩, ⟨"id", "y"⟩] })) (some ⟨1, 4, 1, 13⟩)]]

theorem isTyped_taggedItem : taggedItem.IsTyped := by
  refine .branch _ (by rintro s ⟨⟩; decide) fun n hn => ?_
  rw [List.mem_singleton.mp hn]
  refine .branch _ nofun fun n hn => ?_
  rw [List.mem_singleton.mp hn]
  exact .leaf _ (by rintro s ⟨⟩; decide)

theorem treeOfJson_of_taggedItem :
    taggedItem.IsTyped ∧ ∃ v, treeToJson taggedItem = .ok v ∧ treeOfJson v = .ok taggedItem :=
  ⟨isTyped_taggedItem, treeOfJson_treeToJson isTyped_taggedItem⟩

end Canonmark
