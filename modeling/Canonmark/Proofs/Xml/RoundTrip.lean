import Canonmark.Proofs.Xml.Building
import Canonmark.Proofs.Xml.Printing

/-! Documents are read back from their XML text, in whichever way it is written. -/
namespace Canonmark.Xml

variable {n : Node} {s : Chars} {o : Options}

/-- The tree of a document is that of its events, and the document is read from it. -/
theorem result_of_isTold (common : IsCommonDocument n) {told : List Event} (h : IsTold n told) :
    ∃ root, Builder.feed (some {}) [] told = ([root], none) ∧
      ∀ place, Schema.nodeOfJson place root.node = .ok n := by
  have built := isBuilt_of_isWritten (isWritten_of_isCommonDocument common)
  obtain ⟨kind, es, hkind, rfl, head, hclass, hnode, hfeed⟩ := built told h
  obtain rfl : kind = .document := by
    obtain ⟨_⟩ := common
    exact (Option.some.inj hkind).symm
  refine ⟨head, ?_, hnode⟩
  have hclose : Builder.closeTag [head] Kind.document.elementName = .ok [head] :=
    Element.closeTag_document hclass []
  rw [Builder.feed_append_of_none (hfeed []), Element.opened, Builder.feed_cons,
    Builder.step, hclose]
  rfl

theorem documentOfJson_of_isCommonDocument (common : IsCommonDocument n) {v : Json}
    (h : ∀ place, Schema.nodeOfJson place v = .ok n) : documentOfJson v = .ok n := by
  obtain ⟨_⟩ := common
  rw [documentOfJson, treeOfJson, Schema.ofJson, h]
  rfl

/-- With text stored as it comes, the tree that is read from any XML text of a document is the
document. -/
theorem fromXml_of_isDocumentXml (common : IsCommonDocument n) {options : Option Options}
    {overrides : Members} (merged : mergeOptions .markdownParser options overrides = .ok o)
    (markdown : o.cls.refines .markdownParser) (untrimmed : o.reader.trimText = false)
    (plain : o.reader.tagInfo = false) :
    (∃ s, IsDocumentXml n s) ∧
      ∀ s, IsDocumentXml n s → fromXml (String.ofList s) options overrides = .ok n := by
  refine ⟨⟨_, isDocumentXml_written common⟩, fun s h => ?_⟩
  obtain ⟨told, htold, hread⟩ := read_of_isDocumentXml common h
  obtain ⟨root, hfeed, hnode⟩ := result_of_isTold common htold
  have hrules : textRules (some o) = some {} := by
    rw [textRules, if_pos markdown, untrimmed, plain]
  have hoptions : markdownOptions "commonmark_xml" (some o) = .ok o := by
    rw [markdownOptions, expectOptions, if_pos markdown]
  have htree : xmlTree o (String.ofList s) = .ok root.node := by
    rw [xmlTree, String.toList_ofList, hread, hrules]
    simp only [hfeed]
    rfl
  simp only [fromXml, merged, hoptions, htree, bind, Except.bind]
  exact documentOfJson_of_isCommonDocument common hnode

/-- A paragraph of a text and of a code span that holds nothing. -/
def comparison : Node :=
  .branch .paragraph (some ⟨1, 1, 1, 8⟩)
    [.leaf (.text "a < \"b\"\n") (some ⟨1, 1, 1, 5⟩), .leaf (.code "") none]

theorem isCommon_comparison : IsCommon comparison := by
  have hspan : ∀ s ∈ some (⟨1, 1, 1, 8⟩ : Span), s.IsWritable := by decide
  have hspan' : ∀ s ∈ some (⟨1, 1, 1, 5⟩ : Span), s.IsWritable := by decide
  refine .branch rfl nofun nofun hspan ?_
  rw [List.forall_mem_cons, List.forall_mem_singleton]
  exact ⟨.leaf rfl (by decide) nofun hspan', .leaf rfl nofun nofun nofun⟩

def compared : Node := .branch (.document defaultNamespace) none [comparison]

theorem isCommonDocument_compared : IsCommonDocument compared :=
  .mk nofun (List.forall_mem_singleton.mpr isCommon_comparison)

/-- A text of this document in which the paragraph stands on a line of its own. -/
def comparedText : String :=
  "<document xmlns=\"http://commonmark.org/xml/1.0\">\n  <paragraph sourcepos=\"1:1-1:8\">" ++
    "<text sourcepos=\"1:1-1:5\">a &lt; &quot;b&quot;\n</text><code></code></paragraph>\n" ++
    "</document>\n"

theorem isDocumentXml_compared : IsDocumentXml compared comparedText.toList := by
  have hnothing : IsGap [] := nofun
  have hindent : IsGap ['\n', ' ', ' '] := by simp [IsGap]
  have hline : IsGap ['\n'] := by simp [IsGap]
  have hparagraph : IsXml comparison (writtenNode comparison) :=
    isXml_written (isWritten_of_isCommon isCommon_comparison)
  have hroot : IsXml compared _ := .branch (isStart_written _ _)
    (.cons hindent hparagraph (.nil hline)) (isEnd_written _)
  have htext : comparedText.toList =
      [] ++ (writtenStart .document [("xmlns", defaultNamespace)] ++ '>' :: (['\n', ' ', ' '] ++
        (writtenNode comparison ++ ['\n']) ++ writtenEnd .document) ++ ['\n']) := by
    decide +kernel
  rw [htext]
  exact .mk hnothing hroot hline

/-- The text is read as the document under default options. -/
theorem fromXml_of_comparedText :
    IsCommonDocument compared ∧ (∃ o, mergeOptions .markdownParser none [] = .ok o ∧
      o.cls.refines .markdownParser ∧ o.reader.trimText = false ∧ o.reader.tagInfo = false) ∧
      IsDocumentXml compared comparedText.toList ∧ fromXml comparedText none [] = .ok compared := by
  obtain ⟨o, merged, markdown, untrimmed, plain⟩ : ∃ o, mergeOptions .markdownParser none [] = .ok
      o ∧ o.cls.refines .markdownParser ∧ o.reader.trimText = false ∧ o.reader.tagInfo = false :=
    ⟨_, rfl, rfl, rfl, rfl⟩
  have hread :=
    (fromXml_of_isDocumentXml isCommonDocument_compared merged markdown untrimmed plain).2 _
      isDocumentXml_compared
  rw [String.ofList_toList] at hread
  exact ⟨isCommonDocument_compared, ⟨o, merged, markdown, untrimmed, plain⟩,
    isDocumentXml_compared, hread⟩

end Canonmark.Xml
