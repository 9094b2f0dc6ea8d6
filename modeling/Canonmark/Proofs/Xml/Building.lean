import Canonmark.Proofs.Builder.Sound
import Canonmark.Proofs.Node.RoundTrip
import Canonmark.Proofs.Xml.Events

/-! What is built from the events of a node, and that the node is read from it. -/
namespace Canonmark.Xml

open Schema (classKey spanKey childrenKey nodeOfJson nodesOfJson)
open Builder (storedText)

variable {kind : Kind} {ms : Members} {span : Option Span}

theorem toMembers_spanAttribute (span : Option Span) :
    toMembers (spanAttribute span) = Schema.spanMember span := by
  cases span <;> rfl

theorem toMembers_append (as others : List (String × String)) :
    toMembers (as ++ others) = toMembers as ++ toMembers others := List.map_append

@[simp] theorem names_toMembers (as : List (String × String)) :
    Members.names (toMembers as) = as.map Prod.fst := by
  simp [Members.names, toMembers, Function.comp_def]

theorem names_storedText (tag s : String) :
    ∀ n ∈ Members.names (storedText tag s), n = "text" ∧ ClassTag.storesText tag := by
  unfold storedText
  split_ifs with h
  · rw [Bool.and_eq_true] at h
    simp [h.1]
  · nofun

theorem lays_congr {properties others : Members} (lays : Schema.Lays kind properties span ms)
    (same : ∀ n, others.get? n = ms.get? n) : Schema.Lays kind properties span others where
  cls := by rw [same, lays.cls]
  properties := fun n hn => by rw [same, lays.properties n hn]
  span := by rw [Members.given?_congr (same _), lays.span]
  names := fun n hn => lays.names n
    (Members.get?_isSome_iff.mp (same n ▸ Members.get?_isSome_iff.mpr hn))

/-- A node is laid out by its class, its attributes in any order, its text and its children. -/
theorem lays_of_perm {as : List (String × String)}
    (names : (as.map Prod.fst).Sublist (propertyNames kind))
    (perm : ms.Perm (toMembers (as ++ spanAttribute span))) (text : String)
    {rest : Members} (room : ∀ n ∈ rest.names, kind.hasChildren ∧ n = childrenKey) :
    Schema.Lays kind (toMembers as ++ storedText kind.classTag text) span
      ((classKey, .str kind.classTag) :: ms ++ storedText kind.classTag text ++ rest) := by
  have honce : (Members.names (toMembers (as ++ spanAttribute span))).Nodup := by
    rw [names_toMembers, List.map_append]
    exact (nodup_attributeNames kind).sublist (names.append (names_spanAttribute span))
  have hknown : ∀ n ∈ Members.names (toMembers as ++ storedText kind.classTag text),
      n ∈ kind.properties := by
    intro n hn
    rw [Members.names_append, List.mem_append, names_toMembers] at hn
    obtain hn | hn := hn
    · exact (List.mem_filter.mp (names.subset hn)).1
    · obtain ⟨rfl, stores⟩ := names_storedText _ _ n hn
      exact Element.text_mem_properties stores
  refine lays_congr (Schema.lays_members hknown span rest room) fun n => ?_
  -- The text comes after the position here, and before it where members are laid out.
  have hswap : (Members.get? (Schema.spanMember span) n).or
      ((Members.get? (storedText kind.classTag text) n).or (rest.get? n)) =
        (Members.get? (storedText kind.classTag text) n).or
          ((Members.get? (Schema.spanMember span) n).or (rest.get? n)) := by
    rw [Schema.get?_spanMember]
    by_cases hn : n = spanKey
    · have hnone : Members.get? (storedText kind.classTag text) n = none :=
        Members.get?_eq_none_iff.mpr fun h =>
          absurd ((names_storedText _ _ n h).1.symm.trans hn) (by decide)
      rw [hnone, Option.none_or, Option.none_or]
    · rw [if_neg hn, Option.none_or, Option.none_or]
  have hms := Members.get?_perm honce perm n
  rw [toMembers_append, toMembers_spanAttribute, Members.get?_append] at hms
  simp only [Members.get?_append, Members.get?_cons, List.cons_append, hms]
  split_ifs
  · rfl
  · simp only [Option.or_assoc, hswap]

variable {place : Schema.Place}

/-- An empty text need not be stored. -/
theorem withDefault_storedText (absent : "text" ∉ ms.names)
    {tag : String} (stores : ClassTag.storesText tag) (s : String) :
    Schema.withDefault place (ms ++ storedText tag s) "text" "" = .ok s := by
  have hnone := Members.get?_eq_none_iff.mpr absent
  by_cases hs : s = ""
  · simp [Schema.withDefault, Schema.optional, Members.given?, storedText, hs, hnone, Except.map]
  · simp [Schema.withDefault, Schema.optional, Members.given?, storedText, hs, stores, hnone,
      Except.map, Members.get?_append, Schema.requireText]

theorem given?_storedText {n : String} (other : n ≠ "text") (ms : Members) (tag s : String) :
    Members.given? (ms ++ storedText tag s) n = ms.given? n := by
  have hnone : Members.get? (storedText tag s) n = none :=
    Members.get?_eq_none_iff.mpr fun h => other (names_storedText _ _ n h).1
  rw [Members.given?, Members.given?, Members.get?_append, hnone, Option.or_none]

theorem not_mem_leafAttributes (l : Leaf) {n : String} (kept : n ∈ Element.reserved) :
    n ∉ Members.names (toMembers (leafAttributes l)) := by
  rw [names_toMembers]
  exact fun h => not_reserved_of_mem ((names_leafAttributes l).subset h) kept

theorem optional_info (place : Schema.Place) (text : String) (info : Option String)
    (tag : Option TagInfo) (key : String) :
    Schema.optional place
      (toMembers (leafAttributes (.codeBlock text info tag)) ++ storedText key text)
        "info" = .ok info := by
  rw [Schema.optional_eq_ok_iff, given?_storedText (by decide)]
  cases info <;> rfl

theorem draftOf_leaf {l : Leaf} (untagged : leafTag? l = none) :
    Schema.draftOf place l.kind
      (toMembers (leafAttributes l) ++ storedText l.kind.classTag (leafText l)) =
      .ok (.leaf l) := by
  have htext (stores : ClassTag.storesText l.kind.classTag) :=
    @withDefault_storedText _ place (not_mem_leafAttributes l (by decide)) _ stores (leafText l)
  have htag : Schema.optionalTag place (toMembers (leafAttributes l) ++
      storedText l.kind.classTag (leafText l)) = .ok none := by
    refine Schema.optionalTag_of_given? ?_
    rw [given?_storedText (by decide), Members.given?,
      Members.get?_eq_none_iff.mpr (not_mem_leafAttributes l (by decide))]
    rfl
  cases l with
  | codeBlock text info tag =>
    obtain rfl : tag = none := untagged
    have hinfo := optional_info place text info none Kind.codeBlock.classTag
    simp only [Leaf.kind, leafText] at htext htag hinfo ⊢
    simp only [Schema.draftOf, htext rfl, htag, hinfo]
    rfl
  | htmlBlock text tag | htmlInline text tag =>
    obtain rfl : tag = none := untagged
    simp only [Leaf.kind, leafText] at htext htag ⊢
    simp only [Schema.draftOf, htext rfl, htag]
    rfl
  | text text | code text =>
    simp only [Leaf.kind, leafText] at htext ⊢
    simp only [Schema.draftOf, htext rfl]
    rfl
  | thematicBreak | softbreak | linebreak => rfl

theorem toMembers_containerAttributes (c : Container) :
    toMembers (containerAttributes c) = Schema.containerMembers c := by
  cases c with
  | list data =>
    obtain ⟨listType, start, tight, delimiter⟩ := data
    cases start <;> cases tight <;> cases delimiter <;> rfl
  | clause clauseid src clauseText => cases clauseText <;> rfl
  | _ => rfl

variable {n : Node} {ns : List Node} {told : List Event}

/-- Where the events of a node before its end leave a frame of which the node is read. -/
def Completes (n : Node) (kind : Kind) (es : List Event) : Prop :=
  ∃ head : Frame, head.classValue = .str (ClassTag.ofElement kind.elementName) ∧
    (∀ place, nodeOfJson place head.node = .ok n) ∧
    ∀ stack, Builder.feed (some {}) stack es = (head :: Element.opened stack, none)

/-- From the events of a node, the builder makes what the node is read from. -/
def IsBuilt (n : Node) : Prop :=
  ∀ told, IsTold n told → ∃ kind es, n.kind? = some kind ∧
    told = es ++ [.closeTag kind.elementName] ∧ Completes n kind es

/-- Text changes nothing in a node that stores none. -/
theorem feed_textEvents {head : Frame} {tag : String} (hhead : head.classValue = .str tag)
    (stores : ClassTag.storesText tag = false) (text : String) (rest : Builder.Stack) :
    Builder.feed (some {}) (head :: rest) (Walk.textEvents text) = (head :: rest, none) := by
  unfold Walk.textEvents
  by_cases h : text = ""
  · simp [h, Builder.feed]
  · simp [h, Builder.feed, Builder.step, Builder.text, hhead, stores]
    rfl

/-- Nodes that are built one after the other join the node around them. -/
theorem feed_areTold (below : ∀ n ∈ ns, IsBuilt n)
    (common : ∀ n ∈ ns, ∀ kind ∈ n.kind?, kind ≠ .document) (h : AreTold ns told) :
    ∃ vs, (∀ place i, nodesOfJson place i vs = .ok ns) ∧ ∀ parent rest,
      Builder.feed (some {}) (parent :: rest) told =
      (Frame.addChildren parent vs :: rest, none) := by
  induction ns generalizing told with
  | nil =>
    cases h
    exact ⟨[], fun _ _ => rfl, fun _ _ => rfl⟩
  | cons n ns ih =>
    obtain ⟨hn, hns⟩ := List.forall_mem_cons.mp below
    obtain ⟨commonHead, commonTail⟩ := List.forall_mem_cons.mp common
    cases h with
    | @cons _ _ own others first following =>
      obtain ⟨kind, es, hkind, rfl, head, hclass, hnode, hfeed⟩ := hn own first
      obtain ⟨vs, hvs, hothers⟩ := ih hns commonTail following
      have hname : kind.elementName ≠ Builder.documentName := by
        have hother := commonHead kind hkind
        revert hother
        cases kind <;> decide
      refine ⟨head.node :: vs, fun place i => ?_, fun parent rest => ?_⟩
      · simp only [nodesOfJson, hnode, bind, Except.bind, hvs]
      · have hclose := Element.closeTag_eq hclass hname parent.openChildren rest
        rw [List.append_assoc, Builder.feed_append_of_none (hfeed (parent :: rest)), Element.opened,
          List.singleton_append, Builder.feed_cons, Builder.step, hclose]
        exact hothers _ rest

theorem free_of_perm {as : List (String × String)} (writes : Writes kind as)
    (perm : ms.Perm (toMembers as)) : ms.names.Nodup ∧ ∀ n ∈ ms.names, n ∉ Element.reserved := by
  have hnames : ms.names.Perm (as.map Prod.fst) := by
    rw [← names_toMembers]
    exact perm.map Prod.fst
  refine ⟨hnames.nodup_iff.mpr writes.once, fun n hn => ?_⟩
  obtain hproperty | hspan := List.mem_append.mp (writes.names.subset (hnames.subset hn))
  · exact not_reserved_of_mem hproperty
  · rw [List.mem_singleton.mp hspan]
    decide

theorem node_frame (common : kind.isCommon) (free : ∀ n ∈ ms.names, n ∉ Element.reserved)
    (chunks : List String) (vs : List Json) :
    (Element.frame {} kind.elementName ms chunks vs).node =
      .obj ((classKey, .str kind.classTag) :: ms ++ storedText kind.classTag (String.join chunks) ++
        Schema.childrenMember vs) := by
  have takes := (Element.takesText free kind.classTag).foldl {} chunks
  rw [Element.frame, Element.ofElement_elementName common, Frame.node_addChildren takes.childless,
    Builder.foldl_giveText_plain (Element.text_not_mem free _)]

theorem isBuilt_leaf {l : Leaf} (untagged : leafTag? l = none)
    (writes : Writes l.kind (leafAttributes l ++ spanAttribute span))
    (writable : ∀ s ∈ span, s.IsWritable) : IsBuilt (.leaf l span) := by
  intro told h
  obtain @⟨_, _, ms, perm⟩ := h
  obtain ⟨once, free⟩ := free_of_perm writes perm
  have common : l.kind.isCommon := by cases l <;> rfl
  obtain ⟨chunks, hevents, hjoin⟩ : ∃ chunks : List String,
      Walk.textEvents (leafText l) = chunks.map .text ∧ String.join chunks = leafText l := by
    by_cases h : leafText l = ""
    · exact ⟨[], by simp [Walk.textEvents, h], h.symm⟩
    · exact ⟨[leafText l], by simp [Walk.textEvents, h], by simp⟩
  refine ⟨l.kind, .openTag l.kind.elementName ms :: Walk.textEvents (leafText l), rfl, rfl,
    Element.frame {} l.kind.elementName ms chunks [], Element.classValue_frame free chunks [],
    fun place => ?_, fun stack => ?_⟩
  · have lays := @lays_of_perm l.kind ms span _ (names_leafAttributes l) perm (leafText l) [] nofun
    rw [node_frame common free, hjoin]
    exact Schema.nodeOfJson_of_lays lays writable (draftOf_leaf untagged)
      (by rw [Schema.hasChildren_leaf]; rfl) rfl
  · have hstart := @Element.feed_start l.kind.elementName ms {} once free stack chunks []
    rw [List.append_nil, ← hevents] at hstart
    exact hstart

theorem storesText_of_hasChildren (h : kind.hasChildren) :
    ClassTag.storesText kind.classTag = false := by
  revert h
  cases kind <;> decide

theorem childrenOf_childrenMember {vs : List Json} (absent : childrenKey ∉ ms.names)
    {place : Schema.Place} (h : nodesOfJson place 0 vs = .ok ns) :
    Schema.childrenOf place (ms ++ Schema.childrenMember vs) = .ok ns := by
  cases vs with
  | nil =>
    rw [Schema.childrenMember, List.append_nil, Schema.childrenOf_eq,
      Members.get?_eq_none_iff.mpr absent]
    exact h
  | cons v vs => rw [Schema.childrenMember, Schema.childrenOf_written place ms absent, h]

theorem isBuilt_branch {c : Container} (common : c.kind.isCommon)
    (writes : Writes c.kind (containerAttributes c ++ spanAttribute span))
    (writable : ∀ s ∈ span, s.IsWritable) (below : ∀ n ∈ ns, IsBuilt n)
    (inner : ∀ n ∈ ns, ∀ kind ∈ n.kind?, kind ≠ .document) : IsBuilt (.branch c span ns) := by
  intro told h
  obtain _ | @⟨_, _, _, ms, content, text, perm, among⟩ := h
  obtain ⟨once, free⟩ := free_of_perm writes perm
  obtain ⟨vs, hvs, hfeed⟩ := feed_areTold below inner among
  have hclass := @Element.classValue_frame c.kind.elementName ms {} free [] vs
  have htag := hclass
  rw [Element.ofElement_elementName common] at htag
  have hstored : storedText c.kind.classTag "" = [] := by simp [storedText]
  refine ⟨c.kind, .openTag c.kind.elementName ms :: (content ++ Walk.textEvents text), rfl, by simp,
    Element.frame {} c.kind.elementName ms [] vs, hclass, fun place => ?_, fun stack => ?_⟩
  · have room : ∀ n ∈ (Schema.childrenMember vs).names, c.kind.hasChildren ∧ n = childrenKey := by
      cases vs <;> simp [Schema.childrenMember, Schema.hasChildren_container]
    have lays := lays_of_perm (names_containerAttributes c) perm "" room
    have hdraft := Schema.draftOf_containerMembers c place
    have absent : childrenKey ∉ Members.names ((classKey, .str c.kind.classTag) :: ms) :=
      ((Element.takesText free c.kind.classTag).foldl {} []).childless
    rw [node_frame common free, String.join_nil]
    rw [hstored, List.append_nil] at lays ⊢
    rw [toMembers_containerAttributes, List.append_nil] at lays
    refine Schema.nodeOfJson_of_lays lays writable hdraft ?_
      (Schema.complete_containerDraft c place span ns)
    rw [if_pos (Schema.hasChildren_container c), childrenOf_childrenMember absent (hvs place 0)]
  · have hstart := @Element.feed_start c.kind.elementName ms {} once free stack []
      (content ++ Walk.textEvents text)
    have htext := feed_textEvents htag (storesText_of_hasChildren (Schema.hasChildren_container c))
      text (Element.opened stack)
    rw [List.map_nil, List.nil_append, Builder.feed_append_of_none (hfeed _ _)] at hstart
    exact hstart.trans htext

/-- Any node that can be written is read from what is built of its events. -/
theorem isBuilt_of_isWritten (h : IsWritten n) : IsBuilt n := by
  induction h with
  | leaf untagged writes _ writable => exact isBuilt_leaf untagged writes writable
  | branch common writes writable _ inner ih => exact isBuilt_branch common writes writable ih inner

end Canonmark.Xml
