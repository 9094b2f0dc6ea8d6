import Canonmark.Proofs.Node.Grammar

/-! Values that are read as trees are those that conform to the grammar. Many of them may stand for
one tree; the one that is written for it is their canonical form. -/
namespace Canonmark

namespace Schema

variable {place : Place} {kind : Kind} {ms : Members} {n : String}

theorem kindOf_eq_ok (h : kindOf place ms = .ok kind) :
    ms.get? classKey = some (.str kind.classTag) := by
  unfold kindOf at h
  split at h
  · cases h
  · rename_i tag hget
    split at h
    · rename_i k hk
      cases h
      have htag := List.find?_some hk
      rw [beq_iff_eq] at htag
      rw [htag, Members.get?_of_given? hget]
    · cases h
  · split_ifs at h <;> cases h

theorem checkNames_eq_ok (h : checkNames place kind ms = .ok ()) :
    ∀ n ∈ ms.names,
      n = classKey ∨ n = spanKey ∨ n ∈ kind.properties ∨ kind.hasChildren ∧ n = childrenKey := by
  unfold checkNames at h
  split at h
  · rename_i hnil
    intro n hn
    have hallowed : n ∈ allowed kind := by
      simpa using List.filter_eq_nil_iff.mp hnil n hn
    simpa [allowed] using hallowed
  · cases h

theorem childrenOf_eq_ok {ns : List Node} (h : childrenOf place ms = .ok ns) :
    (∀ v, ms.get? childrenKey = some v → ∃ vs, v = .arr vs) ∧
      nodesOfJson place 0 (childValues ms) = .ok ns := by
  rw [childrenOf_eq] at h
  rw [childValues, Json.itemsAt]
  cases hget : ms.get? childrenKey with
  | none =>
    rw [hget] at h
    exact ⟨by simp, h⟩
  | some v =>
    rw [hget] at h
    cases v with
    | arr vs =>
      refine ⟨?_, h⟩
      rintro _ ⟨⟩
      exact ⟨vs, rfl⟩
    | _ => cases h

/-- What a node has been read from. -/
theorem nodeOfJson_eq_ok {n : Node} (h : nodeOfJson place (.obj ms) = .ok n) :
    ∃ kind draft span children, kindOf place ms = .ok kind ∧ checkNames place kind ms = .ok () ∧
      draftOf place kind ms = .ok draft ∧ spanOf place kind ms = .ok span ∧
      (if kind.hasChildren then childrenOf place ms else .ok []) = .ok children ∧
      draft.complete place span children = .ok n := by
  rw [nodeOfJson] at h
  obtain ⟨kind, hkind, h⟩ := bind_eq_ok h
  obtain ⟨_, hnames, h⟩ := bind_eq_ok h
  obtain ⟨draft, hdraft, h⟩ := bind_eq_ok h
  obtain ⟨span, hspan, h⟩ := bind_eq_ok h
  by_cases hk : kind.hasChildren
  · rw [if_pos hk] at h
    obtain ⟨children, hchildren, h⟩ := bind_eq_ok h
    exact ⟨kind, draft, span, children, hkind, hnames, hdraft, hspan,
      by rw [if_pos hk, hchildren], h⟩
  · rw [if_neg hk] at h
    exact ⟨kind, draft, span, [], hkind, hnames, hdraft, hspan, by rw [if_neg hk], h⟩

/-- A value that conforms to the grammar, and the tree that its canonical form is written for. -/
structure StandsFor (v : Json) (n : Node) : Prop where
  conforms : Conforms v
  typed : n.IsTyped
  written : Json.fold childrenKey canonicalNode v = [toJson n]

theorem nodesOfJson_eq_ok {vs : List Json} {i : Nat} {ns : List Node}
    (each : ∀ v ∈ vs, ∀ place n, nodeOfJson place v = .ok n → StandsFor v n)
    (h : nodesOfJson place i vs = .ok ns) :
    (∀ v ∈ vs, Conforms v) ∧ (∀ n ∈ ns, n.IsTyped) ∧
      Json.foldAll childrenKey canonicalNode vs = toJsonList ns := by
  induction vs generalizing i ns with
  | nil =>
    cases h
    exact ⟨by simp, by simp, rfl⟩
  | cons v vs ih =>
    obtain ⟨n, hn, h⟩ := bind_eq_ok h
    obtain ⟨ns, hns, h⟩ := bind_eq_ok h
    cases h
    obtain ⟨hfirst, hrest⟩ := List.forall_mem_cons.mp each
    have hv := hfirst _ n hn
    obtain ⟨hconform, htyped, hfold⟩ := ih hrest hns
    refine ⟨List.forall_mem_cons.mpr ⟨hv.conforms, hconform⟩,
      List.forall_mem_cons.mpr ⟨hv.typed, htyped⟩, ?_⟩
    rw [Json.foldAll, hv.written, hfold, toJsonList]
    rfl

theorem eq_text_of_ofText? {level : String} {l : Level} (h : Level.ofText? level = some l) :
    level = l.text := by
  have htext := List.find?_some h
  rw [beq_iff_eq] at htext
  exact htext.symm

/-- The node of a draft is written with what is written for the draft. -/
theorem complete_eq_ok {draft : Draft} {written : Members} {span : Option Span}
    {children : List Node} {n : Node} (drafts : Drafts kind written draft)
    (h : draft.complete place span children = .ok n) :
    (∃ l, n = .leaf l span ∧ l.kind = kind ∧ written = leafMembers l) ∨
      ∃ c, n = .branch c span children ∧ c.kind = kind ∧ written = containerMembers c := by
  cases drafts with
  | @leaf l hkind hwritten =>
    cases h
    exact .inl ⟨l, rfl, hkind, hwritten⟩
  | @container c hkind hwritten =>
    cases h
    exact .inr ⟨c, rfl, hkind, hwritten⟩
  | @heading level hkind hwritten =>
    rw [Draft.complete] at h
    split at h
    · rename_i l hl
      cases h
      exact .inr ⟨.heading l, rfl, hkind.symm, by rw [hwritten, eq_text_of_ofText? hl]; rfl⟩
    · cases h

/-- The level of a heading is checked when its children have been read. -/
theorem level_of_complete {draft : Draft} {span : Option Span} {children : List Node} {n : Node}
    (hdraft : draftOf place .heading ms = .ok draft)
    (h : draft.complete place span children = .ok n) :
    ∃ s ∈ ["1", "2", "3", "4", "5", "6"], ms.get? "level" = some (.str s) := by
  obtain ⟨level, hl, hdraft⟩ := bind_eq_ok hdraft
  cases hdraft
  rw [Draft.complete] at h
  split at h
  · rename_i l hlevel
    rw [eq_text_of_ofText? hlevel] at hl
    exact ⟨l.text, by cases l <;> decide, (required_eq_ok (by decide) hl).1⟩
  · cases h

/-- What is read as children, and what is written for them. -/
theorem children_eq_ok {children : List Node}
    (each : ∀ v ∈ childValues ms, ∀ place n, nodeOfJson place v = .ok n → StandsFor v n)
    (names : ∀ n ∈ ms.names,
      n = classKey ∨ n = spanKey ∨ n ∈ kind.properties ∨ kind.hasChildren ∧ n = childrenKey)
    (h : (if kind.hasChildren then childrenOf place ms else .ok []) = .ok children) :
    (∀ v, ms.get? childrenKey = some v → ∃ vs, v = .arr vs) ∧ (∀ v ∈ childValues ms, Conforms v) ∧
      (∀ n ∈ children, n.IsTyped) ∧
      Json.foldAll childrenKey canonicalNode (childValues ms) = toJsonList children := by
  by_cases hk : kind.hasChildren
  · rw [if_pos hk] at h
    obtain ⟨listed, hchildren⟩ := childrenOf_eq_ok h
    exact ⟨listed, nodesOfJson_eq_ok each hchildren⟩
  · have hnone : ms.get? childrenKey = none := by
      refine Members.get?_eq_none_iff.mpr fun hmem => ?_
      obtain heq | heq | hproperty | hroom := names _ hmem
      · exact absurd heq (by decide)
      · exact absurd heq (by decide)
      · exact (not_mem_properties kind).2.2 hproperty
      · exact hk hroom.1
    rw [if_neg hk] at h
    cases h
    rw [childValues, Json.itemsAt, hnone]
    exact ⟨by simp, by simp, by simp, rfl⟩

/-- What is read stands for a tree. -/
theorem standsFor_of_nodeOfJson (v : Json) :
    ∀ place n, nodeOfJson place v = .ok n → StandsFor v n := by
  induction v using Json.inductionOnItems childrenKey with
  | other v hv =>
    intro place n h
    cases v with
    | obj ms => exact absurd rfl (hv ms)
    | _ => cases h
  | obj ms each =>
    intro place n h
    obtain ⟨kind, draft, span, children, hkind, hnames, hdraft, hspan, hchildren, hcomplete⟩ :=
      nodeOfJson_eq_ok h
    obtain ⟨written, read, needed, drafts⟩ := draftOf_eq_ok hdraft
    obtain ⟨denotes, writable, hwritten⟩ := spanOf_eq_ok hspan
    have hcls := kindOf_eq_ok hkind
    have names := checkNames_eq_ok hnames
    obtain ⟨listed, below, typed, hfold⟩ := children_eq_ok each names hchildren
    have level : kind = .heading → ∃ s ∈ ["1", "2", "3", "4", "5", "6"],
        ms.get? "level" = some (.str s) := by
      rintro rfl
      exact level_of_complete hdraft hcomplete
    have conforms : Conforms (.obj ms) :=
      .node hcls names needed (suits_of_forall₂ read) level denotes listed below
    have hform : Json.fold childrenKey canonicalNode (.obj ms) =
        [.obj ((classKey, .str kind.classTag) :: written.flatten ++ spanMember span ++
          (if kind.hasChildren then [(childrenKey, .arr (toJsonList children))] else []))] := by
      rw [Json.fold_obj, ← childValues, hfold, canonicalNode, Members.text?, hcls]
      simp only [Option.bind_some, Kind.ofClassTag?_classTag,
        flatMap_canonicalProperty read, hwritten]
    obtain ⟨l, rfl, rfl, hmembers⟩ | ⟨c, rfl, rfl, hmembers⟩ := complete_eq_ok drafts hcomplete
    · refine ⟨conforms, .leaf l writable, ?_⟩
      rw [hform, hmembers, hasChildren_leaf, toJson]
      simp
    · refine ⟨conforms, .branch c writable typed, ?_⟩
      rw [hform, hmembers, hasChildren_container, toJson]
      simp

theorem level_of_mem {s : String} (h : s ∈ ["1", "2", "3", "4", "5", "6"]) :
    ∃ l : Level, s = l.text := by
  have hone : ∀ s ∈ ["1", "2", "3", "4", "5", "6"], ∃ l ∈ Level.all, s = l.text := by decide
  obtain ⟨l, _, hl⟩ := hone s h
  exact ⟨l, hl⟩

theorem tag_mem_properties (h : kind.hasTag) : "tag" ∈ kind.properties := by
  cases kind <;> first | decide | cases h

/-- What conforms to the grammar is never refused. -/
theorem valid_of_conforms {v : Json} (h : Conforms v) : Valid v := by
  induction h with
  | @node kind ms cls names needed properties level span listed _ ih =>
    refine .node ⟨cls, fun n hn => ?_, needed, fun n hn other v hv => ?_, fun hk => ?_,
      fun hk v hv place => ?_, fun v hv => ?_, listed⟩ ih
    · simpa [allowed] using names n hn
    · have hsuits := properties n hn v hv
      rwa [if_neg other] at hsuits
    · obtain ⟨s, hs, hget⟩ := level hk
      obtain ⟨l, rfl⟩ := level_of_mem hs
      exact ⟨l, hget⟩
    · have hsuits := properties "tag" (tag_mem_properties hk) v hv
      rw [if_pos rfl] at hsuits
      exact tagOfJson_of_isTag hsuits place
    · obtain ⟨s, span, rfl, hdenotes⟩ := span v hv
      exact ⟨s, span, rfl, Span.ofText_eq_ok_iff.mpr hdenotes⟩

end Schema

theorem treeOfJson_eq_ok_iff {v : Json} {n : Node} :
    treeOfJson v = .ok n ↔ Schema.nodeOfJson .root v = .ok n := by
  rw [treeOfJson, Schema.ofJson]
  cases Schema.nodeOfJson .root v <;> simp [Except.mapError]

/-- A value is read as a tree if and only if it conforms to the grammar. What is written for the
tree is the canonical form of the value, and this form is read as the same tree and written as it
is. -/
theorem treeOfJson_iff_conforms (v : Json) :
    ((∃ n, treeOfJson v = .ok n) ↔ Schema.Conforms v) ∧
      ∀ n, treeOfJson v = .ok n →
        treeToJson n = .ok (Schema.canonical v) ∧ treeOfJson (Schema.canonical v) = .ok n ∧
          (treeOfJson (Schema.canonical v) >>= treeToJson) = .ok (Schema.canonical v) := by
  refine ⟨⟨?_, fun h => ?_⟩, fun n hn => ?_⟩
  · rintro ⟨n, hn⟩
    exact (Schema.standsFor_of_nodeOfJson v _ n (treeOfJson_eq_ok_iff.mp hn)).conforms
  · obtain ⟨n, hn⟩ := Schema.nodeOfJson_of_valid (Schema.valid_of_conforms h) .root
    exact ⟨n, treeOfJson_eq_ok_iff.mpr hn⟩
  · have stands := Schema.standsFor_of_nodeOfJson v _ n (treeOfJson_eq_ok_iff.mp hn)
    have hcanonical : Schema.canonical v = Schema.toJson n := by
      rw [Schema.canonical, stands.written, List.headD_cons]
    have hwrite : treeToJson n = .ok (Schema.canonical v) := by
      rw [treeToJson, Schema.foreign?_of_isTyped stands.typed, hcanonical]
    have hread : treeOfJson (Schema.canonical v) = .ok n := by
      rw [hcanonical, treeOfJson_eq_ok_iff, Schema.nodeOfJson_toJson stands.typed]
    refine ⟨hwrite, hread, ?_⟩
    rw [hread]
    exact hwrite

/-- A heading as it may be given by hand. -/
def looseHeading : Json :=
  .obj
    [("nodes", .arr [.obj [("tag", .null), ("$class", .str Kind.htmlInline.classTag)]]), ("level",
    .str "2"), ("sourcepos", .str " 01:1-\u0662:3 "), ("$class", .str Kind.heading.classTag)]

/-- The same heading as it is written. -/
def plainHeading : Json :=
  .obj [("$class", .str Kind.heading.classTag), ("level", .str "2"), ("sourcepos", .str "1:1-2:3"),
    ("nodes", .arr [.obj [("$class", .str Kind.htmlInline.classTag), ("text", .str "")]])]

theorem treeOfJson_of_looseHeading :
    ∃ n, treeOfJson looseHeading = .ok n ∧ treeToJson n = .ok plainHeading ∧
      treeOfJson plainHeading = .ok n := by
  have hcanonical : Schema.canonical looseHeading = plainHeading := by rfl
  have hread : ∃ n, treeOfJson looseHeading = .ok n := ⟨_, rfl⟩
  obtain ⟨n, hn⟩ := hread
  have hforms := (treeOfJson_iff_conforms looseHeading).2 n hn
  rw [hcanonical] at hforms
  exact ⟨n, hn, hforms.1, hforms.2.1⟩

end Canonmark
