import Canonmark.Proofs.Xml.Written

/-! A way to write the XML text of a document, with no more space than is needed. -/
namespace Canonmark.Xml

/-- A character by its name if it has one. -/
def written (c : Char) : Chars :=
  match characterNames.find? fun p => p.2 == c with
  | some (name, _) => '&' :: (name.toList ++ [';'])
  | none => [c]

def writtenAttribute (a : String × String) : Chars :=
  ' ' :: (a.1.toList ++ '=' :: '"' :: (a.2.toList.flatMap written ++ ['"']))

def writtenStart (kind : Kind) (as : List (String × String)) : Chars :=
  '<' :: (kind.elementName.toList ++ as.flatMap writtenAttribute)

def writtenEnd (kind : Kind) : Chars := '<' :: '/' :: (kind.elementName.toList ++ ['>'])

mutual

/-- An XML text of a node. -/
def writtenNode : Node → Chars
  | .leaf l span =>
    writtenStart l.kind (leafAttributes l ++ spanAttribute span) ++
      '>' :: ((leafText l).toList.flatMap written ++ writtenEnd l.kind)
  | .branch c span children =>
    writtenStart c.kind (containerAttributes c ++ spanAttribute span) ++
      '>' :: (writtenNodes children ++ writtenEnd c.kind)
  | .foreign _ => []

def writtenNodes : List Node → Chars
  | [] => []
  | n :: ns => writtenNode n ++ writtenNodes ns

end

theorem spells_written (quote : Option Char) (named : ∀ q ∈ quote, q = '"' ∨ q = '\'') (c : Char) :
    Spells quote c (written c) := by
  unfold written
  cases h : characterNames.find? fun p => p.2 == c with
  | some p =>
    obtain ⟨name, d⟩ := p
    obtain rfl : d = c := by simpa using List.find?_some h
    exact .reference (.named (List.mem_of_find?_eq_some h))
  | none =>
    have hnone : ∀ p ∈ characterNames, c ≠ p.2 := by
      intro p hp heq
      simpa [heq] using List.find?_eq_none.mp h p hp
    refine .bare ⟨hnone ("amp", '&') (by decide), hnone ("lt", '<') (by decide),
      hnone ("gt", '>') (by decide), ?_⟩
    intro heq
    obtain rfl | rfl := named c heq.symm
    · exact hnone ("quot", '"') (by decide) rfl
    · exact hnone ("apos", '\'') (by decide) rfl

theorem spellsText_written (quote : Option Char) (named : ∀ q ∈ quote, q = '"' ∨ q = '\'')
    (s : Chars) : SpellsText quote s (s.flatMap written) := by
  induction s with
  | nil => exact .nil
  | cons c s ih =>
    rw [List.flatMap_cons]
    exact .cons (spells_written quote named c) ih

theorem areAttributes_written (as : List (String × String)) :
    AreAttributes as (as.flatMap writtenAttribute) := by
  induction as with
  | nil => exact .nil
  | cons a as ih =>
    have hspace : IsGap [' '] := by simp [IsGap]
    have hvalue := spellsText_written (some '"') (by rintro q ⟨⟩; exact .inl rfl) a.2.toList
    have hcons : AreAttributes ((a.1, a.2) :: as) _ := .cons hspace (by decide) (.inl rfl) hvalue ih
    simpa [writtenAttribute] using hcons

theorem isStart_written (kind : Kind) (as : List (String × String)) :
    IsStart kind as (writtenStart kind as) := by
  have hgap : IsGap [] := nofun
  have hstart : IsStart kind as _ := .mk (.refl as) (areAttributes_written as) hgap
  rwa [List.append_nil] at hstart

theorem isEnd_written (kind : Kind) : IsEnd kind (writtenEnd kind) := by
  have hgap : IsGap [] := nofun
  exact .mk hgap

theorem areXml_written {ns : List Node} (h : ∀ n ∈ ns, IsXml n (writtenNode n)) :
    AreXml ns (writtenNodes ns) := by
  have hgap : IsGap [] := nofun
  induction ns with
  | nil => exact .nil hgap
  | cons n ns ih =>
    obtain ⟨hn, hns⟩ := List.forall_mem_cons.mp h
    exact .cons hgap hn (ih hns)

theorem isXml_written {n : Node} (h : IsWritten n) : IsXml n (writtenNode n) := by
  induction h with
  | leaf =>
    rw [writtenNode]
    exact .leaf (isStart_written _ _) (spellsText_written none nofun _) (isEnd_written _)
  | branch _ _ _ _ _ ih =>
    rw [writtenNode]
    exact .branch (isStart_written _ _) (areXml_written ih) (isEnd_written _)

/-- Every document has an XML text. -/
theorem isDocumentXml_written {n : Node} (h : IsCommonDocument n) :
    IsDocumentXml n (writtenNode n) := by
  have hgap : IsGap [] := nofun
  have hxml : IsDocumentXml n ([] ++ (writtenNode n ++ [])) :=
    .mk hgap (isXml_written (isWritten_of_isCommonDocument h)) hgap
  rwa [List.nil_append, List.append_nil] at hxml

end Canonmark.Xml
