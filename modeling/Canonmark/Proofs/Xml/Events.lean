import Canonmark.Proofs.Xml.Opening

/-! The events of elements: those of the children of a node come between the start and the end of
its own, and its text just before the end. -/
namespace Canonmark.Xml

mutual

/-- The events of a node. What space stands between the children of a node is told as its text. -/
inductive IsTold : Node → List Event → Prop
  | leaf {l : Leaf} {span : Option Span} {ms : Members}
      (perm : ms.Perm (toMembers (leafAttributes l ++ spanAttribute span))) :
      IsTold (.leaf l span)
        (.openTag l.kind.elementName ms ::
          (Walk.textEvents (leafText l) ++ [.closeTag l.kind.elementName]))
  | branch {c : Container} {span : Option Span} {children : List Node} {ms : Members}
      {content : List Event} (text : String)
      (perm : ms.Perm (toMembers (containerAttributes c ++ spanAttribute span)))
      (below : AreTold children content) :
      IsTold (.branch c span children)
        (.openTag c.kind.elementName ms ::
          (content ++ (Walk.textEvents text ++ [.closeTag c.kind.elementName])))

inductive AreTold : List Node → List Event → Prop
  | nil : AreTold [] []
  | cons {n : Node} {ns : List Node} {own rest : List Event} (first : IsTold n own)
      (others : AreTold ns rest) : AreTold (n :: ns) (own ++ rest)

end

namespace Walk

variable {kind : Kind} {as : List (String × String)} {start stop : Chars}

theorem head_of_isStart (h : IsStart kind as start) :
    ∃ c s, isNameStart c ∧ start = '<' :: c :: s := by
  obtain ⟨_⟩ := h
  obtain ⟨given, signs⟩ := isWord_elementName kind
  obtain ⟨c, cs, hname⟩ := List.exists_cons_of_ne_nil given
  exact ⟨c, _, signs c (by simp [hname]), by rw [hname]; rfl⟩

theorem head_of_isEnd (h : IsEnd kind stop) : ∃ s, stop = '<' :: s := by
  obtain ⟨_⟩ := h
  exact ⟨_, rfl⟩

theorem content_of_isStart (h : IsStart kind as start) (writes : Writes kind as)
    {empty : Bool} (ends : EndsTag empty stop) {es : List OpenElement}
    (room : IsRoom kind es) (events : List Event) (rest : Chars) :
    ∃ ms, ms.Perm (toMembers as) ∧ content {} 0 (start ++ (stop ++ rest)) ⟨es, events⟩ =
      proceed {} (opened ⟨es, events⟩ kind documentScope ms empty) rest := by
  obtain ⟨order, perm, hstep⟩ := step_of_isStart (d := {}) h writes.arePlain ends
  obtain ⟨ms, hms, hopen⟩ := openTag_of_isRoom writes perm room events empty
  have hstep := hstep ⟨es, events⟩ rest
  have hgiven : start ++ stop ≠ [] := by
    obtain ⟨c, s, -, rfl⟩ := head_of_isStart h
    exact List.cons_ne_nil _ _
  rw [hopen, Option.map_some, ← List.append_assoc] at hstep
  exact ⟨ms, hms, by rw [← List.append_assoc, content_of_step hgiven hstep]⟩

theorem content_of_isEnd (h : IsEnd kind stop) {e : OpenElement}
    (named : e.name = ⟨[], kind.elementName.toList⟩) (es : List OpenElement) (events : List Event)
    (rest : Chars) :
    content {} 0 (stop ++ rest) ⟨e :: es, events⟩ =
      proceed {}
      ⟨es, (textEvents (String.ofList e.text) ++ [Event.closeTag kind.elementName]).reverse ++
        events⟩ rest := by
  have hstep := step_of_isEnd (d := {}) h ⟨e :: es, events⟩ rest
  rw [closeTag_eq named, Option.map_some] at hstep
  obtain ⟨s, rfl⟩ := head_of_isEnd h
  exact content_of_step (List.cons_ne_nil _ _) hstep

theorem head_of_isXml {n : Node} {s : Chars} (h : IsXml n s) :
    ∃ c t, isNameStart c ∧ s = '<' :: c :: t := by
  cases h with
  | leaf opening | emptyLeaf opening | branch opening | emptyBranch opening =>
    obtain ⟨c, t, hc, rfl⟩ := head_of_isStart opening
    exact ⟨c, _, hc, rfl⟩

/-- An element of which only the start has been read. -/
def fresh (kind : Kind) : OpenElement := ⟨⟨[], kind.elementName.toList⟩, [], false, documentScope⟩

/-- Reading the element of a node tells the events of the node. -/
def Tells (n : Node) : Prop :=
  ∀ s, IsXml n s → ∀ es, (∀ kind ∈ n.kind?, IsRoom kind es) →
    ∀ (events : List Event) (rest : Chars), ∃ told, IsTold n told ∧
      content {} 0 (s ++ rest) ⟨es, events⟩ = proceed {} ⟨markChild es, told.reverse ++ events⟩ rest

theorem content_of_opened (h : IsStart kind as start) (writes : Writes kind as)
    {es : List OpenElement} (room : IsRoom kind es) (events : List Event) (rest : Chars) :
    ∃ ms, ms.Perm (toMembers as) ∧ content {} 0 (start ++ '>' :: rest) ⟨es, events⟩ =
      content {} 0 rest ⟨fresh kind :: markChild es, .openTag kind.elementName ms :: events⟩ := by
  obtain ⟨ms, perm, hstart⟩ := content_of_isStart h writes .opened room events rest
  refine ⟨ms, perm, ?_⟩
  rw [List.singleton_append, proceed_of_ne_nil (List.cons_ne_nil _ _)] at hstart
  exact hstart

theorem tells_leaf {l : Leaf} {span : Option Span}
    (writes : Writes l.kind (leafAttributes l ++ spanAttribute span))
    (admitted : ∀ c ∈ (leafText l).toList, isAdmitted c) : Tells (.leaf l span) := by
  intro s h es room events rest
  have hroom := room l.kind rfl
  cases h with
  | @leaf _ _ start body stop opening text closing =>
    obtain ⟨ms, perm, hstart⟩ :=
      content_of_opened opening writes hroom events (body ++ (stop ++ rest))
    have hend := content_of_isEnd closing (e := (fresh l.kind).addText (leafText l).toList) rfl
      (markChild es) (.openTag l.kind.elementName ms :: events) rest
    have htext : String.ofList ((fresh l.kind).addText (leafText l).toList).text = leafText l :=
      String.ofList_toList
    obtain ⟨t, rfl⟩ := head_of_isEnd closing
    refine ⟨_, .leaf perm, ?_⟩
    rw [List.append_assoc, List.cons_append, List.append_assoc, hstart, List.cons_append,
      content_of_spells text admitted (List.cons_ne_nil _ _), addText_cons,
      ← List.cons_append, hend, htext]
    simp
  | emptyLeaf opening empty =>
    obtain ⟨ms, perm, hcontent⟩ := content_of_isStart opening writes .empty hroom events rest
    have htold := IsTold.leaf perm
    rw [empty] at htold
    exact ⟨_, htold, by rw [List.append_assoc, hcontent]; rfl⟩

/-- Space between the children of an element changes at most its text. -/
theorem content_of_areXml {ns : List Node} (below : ∀ n ∈ ns, Tells n)
    (inner : ∀ n ∈ ns, ∀ kind ∈ n.kind?, kind ≠ .document) {s : Chars}
    (h : AreXml ns s) {e : OpenElement} (scope : e.scope = documentScope)
    (es : List OpenElement) (events : List Event) (rest : Chars) :
    ∃ told, AreTold ns told ∧ ∃ f : OpenElement, f.name = e.name ∧
      content {} 0 (s ++ '<' :: rest) ⟨e :: es, events⟩ =
        content {} 0 ('<' :: rest) ⟨f :: es, told.reverse ++ events⟩ := by
  induction ns generalizing s e events with
  | nil =>
    obtain ⟨space⟩ := h
    refine ⟨[], .nil, e.addText s, rfl, ?_⟩
    rw [content_gap space (List.cons_ne_nil _ _), addText_cons]
    rfl
  | cons n ns ih =>
    obtain ⟨hn, hns⟩ := List.forall_mem_cons.mp below
    obtain ⟨innerHead, innerTail⟩ := List.forall_mem_cons.mp inner
    cases h with
    | @cons _ _ gap own others space first following =>
      have hroom : ∀ kind ∈ n.kind?, IsRoom kind (e.addText gap :: es) :=
        fun kind hkind => .inner (innerHead kind hkind) scope
      obtain ⟨told, htold, hfirst⟩ := hn _ first _ hroom events (others ++ '<' :: rest)
      obtain ⟨told', htold', f, hf, hothers⟩ :=
        ih hns innerTail following (e := { e.addText gap with hasChild := true }) scope
          (told.reverse ++ events)
      refine ⟨_, .cons htold htold', f, hf, ?_⟩
      obtain ⟨c, t, -, rfl⟩ := head_of_isXml first
      rw [List.append_assoc, List.append_assoc, List.cons_append,
        content_gap space (List.cons_ne_nil _ _), addText_cons, ← List.cons_append, hfirst,
        proceed_of_ne_nil (List.cons_ne_nil _ _), List.reverse_append, List.append_assoc]
      exact hothers

theorem tells_branch {c : Container} {span : Option Span} {children : List Node}
    (writes : Writes c.kind (containerAttributes c ++ spanAttribute span))
    (below : ∀ n ∈ children, Tells n) (inner : ∀ n ∈ children, ∀ kind ∈ n.kind?, kind ≠ .document) :
    Tells (.branch c span children) := by
  intro s h es room events rest
  have hroom := room c.kind rfl
  cases h with
  | @branch _ _ _ start content stop opening among closing =>
    obtain ⟨ms, perm, hstart⟩ :=
      content_of_opened opening writes hroom events (content ++ (stop ++ rest))
    obtain ⟨t, rfl⟩ := head_of_isEnd closing
    obtain ⟨told, htold, e, he, hcontent⟩ := content_of_areXml below inner among (e := fresh c.kind)
      rfl (markChild es) (.openTag c.kind.elementName ms :: events) (t ++ rest)
    have hend := content_of_isEnd closing he (markChild es)
      (told.reverse ++ .openTag c.kind.elementName ms :: events) rest
    refine ⟨_, .branch (String.ofList e.text) perm htold, ?_⟩
    rw [List.append_assoc, List.cons_append, List.append_assoc, hstart, List.cons_append, hcontent,
      ← List.cons_append, hend]
    simp
  | emptyBranch opening =>
    obtain ⟨ms, perm, hcontent⟩ := content_of_isStart opening writes .empty hroom events rest
    exact ⟨_, .branch "" perm .nil, by rw [List.append_assoc, hcontent]; rfl⟩

end Walk

/-- Reading the element of any node that can be written tells the events of the node. -/
theorem tells_of_isWritten {n : Node} (h : IsWritten n) : Walk.Tells n := by
  induction h with
  | leaf _ writes text => exact Walk.tells_leaf writes (isAdmitted_of_isClean text)
  | branch _ writes _ _ inner ih => exact Walk.tells_branch writes ih inner

theorem normalizeEnds_of_isClean {s : Chars} (clean : IsClean s) : normalizeEnds s = s := by
  induction s with
  | nil => rfl
  | cons c s ih =>
    obtain ⟨hc, hs⟩ := isClean_cons.mp clean
    have hne : c ≠ '\r' := by
      rintro rfl
      exact absurd hc (by decide)
    rw [normalizeEnds, ih hs, if_neg (by simpa using hne)]
    rintro _ rfl
    exact absurd rfl hne

/-- What begins like a tag is no other markup. -/
theorem dropStart?_of_isGap {gap : Chars} (space : IsGap gap) {c e : Char}
    (other : e ≠ c) (signs rest : Chars) :
    Text.dropStart? ('<' :: e :: signs) (gap ++ '<' :: c :: rest) = none := by
  cases gap with
  | nil =>
    have hne : (e == c) = false := beq_eq_false_iff_ne.mpr other
    rw [List.nil_append, Text.dropStart?, if_pos (by decide), Text.dropStart?, hne]
    rfl
  | cons d gap =>
    have hne : ('<' == d) = false := by obtain rfl | rfl := space d (by simp) <;> decide
    rw [List.cons_append, Text.dropStart?, hne]
    rfl

theorem skipRemarks_of_isNameStart {gap : Chars} (space : IsGap gap)
    {c : Char} (start : isNameStart c) (fuel : Nat) (rest : Chars) :
    skipRemarks (fuel + 1) (gap ++ '<' :: c :: rest) = '<' :: c :: rest := by
  have hne : c ≠ '!' ∧ c ≠ '?' := by
    constructor <;> rintro rfl <;> exact absurd start (by decide)
  have hremark : afterRemark? (c :: rest) = none := by
    rw [afterRemark?] <;> simp [hne]
  rw [skipRemarks, skipWhite_gap space rfl]
  simp only [hremark]

theorem skipRemarks_of_isGap {gap : Chars} (space : IsGap gap) :
    skipRemarks gap.length gap = [] := by
  cases gap with
  | nil => rfl
  | cons c gap =>
    have hwhite : skipWhite (c :: gap) = [] := by
      rw [skipWhite, List.dropWhile_eq_nil_iff]
      exact isWhite_of_isGap space
    rw [List.length_cons, skipRemarks, hwhite]

/-- Before a root element there is neither a declaration nor a document type. -/
theorem prolog_of_isGap {gap : Chars} (space : IsGap gap) {c : Char} (start : isNameStart c)
    (rest : Chars) :
    Doctype.prolog (gap ++ '<' :: c :: rest) = .ok ({}, '<' :: c :: rest) := by
  have hne : '?' ≠ c ∧ '!' ≠ c := by
    constructor <;> rintro rfl <;> exact absurd start (by decide)
  have hxml := dropStart?_of_isGap space hne.1 "xml".toList rest
  have hnothing : IsGap [] := nofun
  have htype := dropStart?_of_isGap hnothing hne.2 "DOCTYPE".toList rest
  obtain ⟨fuel, hfuel⟩ : ∃ fuel, (gap ++ '<' :: c :: rest).length = fuel + 1 :=
    ⟨gap.length + rest.length + 1, by simp; omega⟩
  have hfirst := skipRemarks_of_isNameStart space start fuel rest
  have hsecond := skipRemarks_of_isNameStart hnothing start (rest.length + 1) rest
  have hnone : Text.dropStart? "<?xml".toList (gap ++ '<' :: c :: rest) = none := hxml
  have hnone' : Text.dropStart? "<!DOCTYPE".toList ('<' :: c :: rest) = none := htype
  rw [List.nil_append] at hsecond
  have hpure : ∀ {α : Type} (a : α) (s : Chars), (StateT.pure a : Doctype.Read α) s = .ok (a, s) :=
    fun _ _ => rfl
  simp only [Doctype.prolog, Doctype.after?, bind, StateT.bind, get, getThe, MonadStateOf.get,
    StateT.get, pure, hpure, Except.bind, Except.pure, modify, modifyGet, MonadStateOf.modifyGet,
    StateT.modifyGet, hnone, hnone', hfuel, hfirst, List.length_cons, hsecond, Option.getD]

theorem read_of_isClean {s rest : Chars} (clean : IsClean s) {d : Doctype}
    (hprolog : Doctype.prolog s = .ok (d, rest)) : read s = readRoot d rest := by
  have hstart : ∀ t, s ≠ '\uFEFF' :: t := by
    rintro t rfl
    exact absurd (isClean_cons.mp clean).1 (by decide)
  have hadmitted : s.takeWhile isAdmitted = s :=
    List.takeWhile_eq_self_iff.mpr (isAdmitted_of_isClean clean)
  unfold read
  split
  · exact absurd rfl (hstart _)
  · simp only [normalizeEnds_of_isClean clean, hadmitted, hprolog, beq_self_eq_true, if_pos]

theorem readRoot_of_isXml {n : Node} (tells : Walk.Tells n) (root : n.kind? = some .document)
    {own after : Chars} (h : IsXml n own) (trailing : IsGap after) :
    ∃ told, IsTold n told ∧ readRoot {} (own ++ after) = ⟨told, none⟩ := by
  obtain ⟨told, htold, hcontent⟩ :=
    tells own h [] (by rw [root]; rintro _ ⟨⟩; exact .root rfl) [] after
  obtain ⟨c, t, hc, rfl⟩ := Walk.head_of_isXml h
  have hwalk : Walk.content {} 0 ('<' :: c :: (t ++ after)) {} =
      (⟨[], told.reverse⟩, some after) := by
    rw [List.append_nil] at hcontent
    exact hcontent
  refine ⟨told, htold, ?_⟩
  rw [List.cons_append, List.cons_append, readRoot, hc]
  simp [hwalk, skipRemarks_of_isGap trailing]

/-- A document is read without a fault, and its events are those of its root. -/
theorem read_of_isDocumentXml {n : Node} (common : IsCommonDocument n) {s : Chars}
    (h : IsDocumentXml n s) : ∃ told, IsTold n told ∧ read s = ⟨told, none⟩ := by
  have written := isWritten_of_isCommonDocument common
  have hroot : n.kind? = some .document := by
    obtain ⟨_⟩ := common
    rfl
  obtain @⟨before, own, after, leading, root, trailing⟩ := h
  have clean : IsClean (before ++ (own ++ after)) := by
    rw [isClean_append, isClean_append]
    exact ⟨isClean_of_isGap leading, isClean_of_isXml written own root, isClean_of_isGap trailing⟩
  obtain ⟨told, htold, hread⟩ := readRoot_of_isXml (tells_of_isWritten written) hroot root trailing
  obtain ⟨c, t, hc, rfl⟩ := Walk.head_of_isXml root
  have hprolog := prolog_of_isGap leading hc (t ++ after)
  exact ⟨told, htold, by rw [read_of_isClean clean hprolog, ← hread]; rfl⟩

end Canonmark.Xml
