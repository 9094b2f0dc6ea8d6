import Canonmark.Proofs.Xml.Content
import Canonmark.Proofs.Xml.Written

/-! How tags open and close elements: in a document, attributes are told as they are written, and
only the document itself binds a namespace. -/
namespace Canonmark.Xml

variable {kind : Kind} {as : List (String × String)} {scope : Scope}

/-- The members that attributes become. -/
def toMembers (as : List (String × String)) : Members := as.map fun (n, v) => (n, .str v)

/-- What is in force within a document. -/
def documentScope : Scope := ([], defaultNamespace.toList) :: Scope.initial

theorem boundName?_rawAttribute (a : String × String) :
    Scope.boundName? (rawAttribute a) = if a.1 = "xmlns" then some [] else none := by
  have hspace : (([] : Chars) == "xmlns".toList) = false := by decide
  unfold Scope.boundName? rawAttribute
  dsimp only
  rw [hspace, if_neg Bool.false_ne_true, List.isEmpty_nil, Bool.true_and]
  simp only [beq_iff_eq, String.toList_inj]

/-- Attributes of other names bind nothing. -/
theorem extend_append (free : "xmlns" ∉ as.map Prod.fst) (scope : Scope)
    (others : List RawAttribute) :
    scope.extend (as.map rawAttribute ++ others) = scope.extend others := by
  induction as with
  | nil => rfl
  | cons a as ih =>
    rw [List.map_cons, List.mem_cons, not_or] at free
    have hname := boundName?_rawAttribute a
    rw [if_neg (Ne.symm free.1)] at hname
    rw [List.map_cons, List.cons_append, Scope.extend, hname]
    exact ih free.2

/-- A document binds names without a colon. -/
theorem extend_document {before after : List (String × String)}
    (free : "xmlns" ∉ before.map Prod.fst) (free' : "xmlns" ∉ after.map Prod.fst) :
    Scope.initial.extend ((before ++ ("xmlns", defaultNamespace) :: after).map rawAttribute) =
      some documentScope := by
  have hbound : Scope.boundName? (rawAttribute ("xmlns", defaultNamespace)) = some [] := by decide
  have hmay : Scope.mayBind [] (rawAttribute ("xmlns", defaultNamespace)).value = true := by decide
  have hafter := extend_append free' documentScope []
  rw [List.append_nil] at hafter
  rw [List.map_append, extend_append free, List.map_cons, Scope.extend, hbound]
  dsimp only
  rw [hmay, if_pos rfl]
  exact hafter

theorem attributes?_rawAttribute (scope : Scope) (as : List (String × String)) :
    scope.attributes? (as.map rawAttribute) = some (as.filter fun a => a.1 != "xmlns") := by
  induction as with
  | nil => rfl
  | cons a as ih =>
    rw [List.map_cons, Scope.attributes?, ih, boundName?_rawAttribute]
    by_cases h : a.1 = "xmlns" <;> simp [h, Scope.attributeName?, rawAttribute]

namespace Walk

theorem hasDuplicates_eq_false {names : List String} (once : names.Nodup) :
    hasDuplicates names = false := by
  induction names with
  | nil => rfl
  | cons n names ih =>
    obtain ⟨hn, once⟩ := List.nodup_cons.mp once
    rw [hasDuplicates, ih once, List.contains_eq_mem, decide_eq_false hn]
    rfl

/-- Where no attributes are declared, those that are written are all. -/
theorem complete_default (n : Name) (as : List RawAttribute) : Doctype.complete {} n as = as := by
  simp [Doctype.complete]

/-- A walk after a start tag. -/
def opened (w : Walk) (kind : Kind) (scope : Scope) (attributes : Members) (empty : Bool) : Walk :=
  let events := .openTag kind.elementName attributes :: w.events
  if empty then ⟨markChild w.elements, .closeTag kind.elementName :: events⟩
  else ⟨⟨⟨[], kind.elementName.toList⟩, [], false, scope⟩ :: markChild w.elements, events⟩

theorem openTag_eq (w : Walk) (kind : Kind) (once : (as.map Prod.fst).Nodup) (hscope :
      ((w.elements.head?.map OpenElement.scope).getD Scope.initial).extend (as.map rawAttribute) =
      some scope) {space : Chars} (hspace : scope.space? [] = some space) (empty : Bool) :
    w.openTag {} ⟨⟨[], kind.elementName.toList⟩, as.map rawAttribute, empty⟩ =
      some (w.opened kind scope (eventAttributes kind.elementName.toList space
        (as.filter fun a => a.1 != "xmlns")) empty) := by
  have hwritten : (as.map rawAttribute).map (fun a => String.ofList a.name.written) =
      as.map Prod.fst := by
    simp [rawAttribute, Name.written, Function.comp_def]
  have honce : ((as.filter fun a => a.1 != "xmlns").map Prod.fst).Nodup :=
    once.sublist (List.filter_sublist.map Prod.fst)
  unfold openTag opened
  simp only [hwritten, hasDuplicates_eq_false once, complete_default, hscope,
    attributes?_rawAttribute, hspace, hasDuplicates_eq_false honce, Option.bind_eq_bind,
    Option.bind_some, String.ofList_toList]
  cases empty <;> rfl

/-- The elements around one of the given kind: none around a document, and a document around all
others. -/
inductive IsRoom (kind : Kind) : List OpenElement → Prop
  | root (document : kind = .document) : IsRoom kind []
  | inner {e : OpenElement} {es : List OpenElement} (other : kind ≠ .document)
      (scope : e.scope = documentScope) : IsRoom kind (e :: es)

end Walk

theorem toMembers_perm {others : List (String × String)} (perm : as.Perm others) :
    (toMembers as).Perm (toMembers others) := perm.map _

theorem filter_of_free (free : "xmlns" ∉ as.map Prod.fst) :
    as.filter (fun a => a.1 != "xmlns") = as := by
  rw [List.filter_eq_self]
  intro a ha
  rw [bne_iff_ne]
  intro hname
  exact free (hname ▸ List.mem_map_of_mem ha)

namespace Walk

variable {order : List (String × String)}

/-- A start tag in a document has the attributes that are written. -/
theorem openTag_inner (h : Writes kind as) (perm : order.Perm as)
    (other : kind ≠ .document) {e : OpenElement} (scope : e.scope = documentScope)
    (es : List OpenElement) (events : List Event) (empty : Bool) :
    openTag {} ⟨e :: es, events⟩ ⟨⟨[], kind.elementName.toList⟩, order.map rawAttribute, empty⟩ =
      some (opened ⟨e :: es, events⟩ kind documentScope (toMembers order) empty) := by
  have honce : (order.map Prod.fst).Nodup := (perm.map Prod.fst).nodup_iff.mpr h.once
  have hfree : "xmlns" ∉ order.map Prod.fst := fun hmem =>
    xmlns_not_mem other (h.names.subset ((perm.map Prod.fst).subset hmem))
  have hscope : e.scope.extend (order.map rawAttribute) = some documentScope := by
    have happend := extend_append hfree e.scope []
    rw [List.append_nil] at happend
    rw [happend, scope]
    rfl
  have hspace : documentScope.space? [] = some defaultNamespace.toList := rfl
  have hname : (kind.elementName.toList == rootName) = false := by
    revert other
    cases kind <;> decide
  have hopen := openTag_eq ⟨e :: es, events⟩ kind honce hscope hspace empty
  rw [hopen, filter_of_free hfree, eventAttributes, hname]
  rfl

/-- The start tag of a document has its namespace after all other attributes. -/
theorem openTag_root (h : Writes .document as) (perm : order.Perm as) (events : List Event)
    (empty : Bool) :
    ∃ ms, ms.Perm (toMembers as) ∧
      openTag {} ⟨[], events⟩
      ⟨⟨[], Kind.document.elementName.toList⟩, order.map rawAttribute, empty⟩ =
        some (opened ⟨[], events⟩ .document documentScope ms empty) := by
  have honce : (order.map Prod.fst).Nodup := (perm.map Prod.fst).nodup_iff.mpr h.once
  obtain ⟨before, after, rfl⟩ := List.append_of_mem (perm.symm.subset (h.space rfl))
  have hfree : "xmlns" ∉ before.map Prod.fst ∧ "xmlns" ∉ after.map Prod.fst := by
    rw [List.map_append, List.map_cons, List.nodup_middle, List.nodup_cons, List.mem_append,
      not_or] at honce
    exact honce.1
  have hspace : documentScope.space? [] = some defaultNamespace.toList := rfl
  have hfilter : (before ++ ("xmlns", defaultNamespace) :: after).filter (fun a => a.1 != "xmlns") =
      before ++ after := by
    rw [List.filter_append, List.filter_cons_of_neg (by decide), filter_of_free hfree.1,
      filter_of_free hfree.2]
  have hattributes : eventAttributes Kind.document.elementName.toList defaultNamespace.toList
      (before ++ after) = toMembers (before ++ after) ++ toMembers [("xmlns", defaultNamespace)] :=
    rfl
  have hopen :=
    openTag_eq ⟨[], events⟩ .document honce (extend_document hfree.1 hfree.2) hspace empty
  refine ⟨_, ?_, hopen⟩
  rw [hfilter, hattributes, toMembers, toMembers, ← List.map_append]
  refine toMembers_perm (List.Perm.trans ?_ perm)
  exact (List.perm_append_singleton _ _).trans List.perm_middle.symm

/-- A start tag opens an element with its attributes, in some order. -/
theorem openTag_of_isRoom (h : Writes kind as) (perm : order.Perm as) {es : List OpenElement}
    (room : IsRoom kind es) (events : List Event) (empty : Bool) :
    ∃ ms, ms.Perm (toMembers as) ∧
      openTag {} ⟨es, events⟩ ⟨⟨[], kind.elementName.toList⟩, order.map rawAttribute, empty⟩ =
        some (opened ⟨es, events⟩ kind documentScope ms empty) := by
  cases room with
  | root document =>
    subst document
    exact openTag_root h perm events empty
  | inner other scope =>
    exact ⟨_, toMembers_perm perm, openTag_inner h perm other scope _ events empty⟩

/-- The event of a text; an empty text is no event. -/
def textEvents (text : String) : List Event := if text == "" then [] else [.text text]

theorem closeTag_eq {e : OpenElement} (named : e.name = ⟨[], kind.elementName.toList⟩)
    (es : List OpenElement) (events : List Event) :
    closeTag ⟨e :: es, events⟩ ⟨[], kind.elementName.toList⟩ =
      some ⟨es, (textEvents (String.ofList e.text) ++ [Event.closeTag kind.elementName]).reverse ++
        events⟩ := by
  have hempty : (String.ofList e.text == "") = e.text.isEmpty := by
    cases h : e.text <;> simp
  unfold closeTag textEvents
  dsimp only
  rw [named, bne_self_eq_false, if_neg Bool.false_ne_true, hempty]
  cases e.text <;> simp

end Walk
end Canonmark.Xml
